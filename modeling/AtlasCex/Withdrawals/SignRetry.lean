import AtlasCex.Mpc.Answers
import AtlasCex.Withdrawals.Stranded
/-!
# Signing again

| here | there |
| --- | --- |
| `rounds`          | the request ids, key references and payloads of `signOne` (`withdrawal-workers.ts:387-450`) |
| `System`          | the workers of `Workers.lean` and the service of `Mpc/Signing.lean` side by side |
| `Label.signed`    | the worker has a signature of 64 bytes for every round (`withdrawal-workers.ts:452-480`) |
| `handler`         | `/v1/sign` with nothing in its way, from the arrival to the answer |
| `pass`            | one retry and one signing of a withdrawal, with everything healthy |

The request id of a round is the withdrawal and the nonce value. A signing that fails keeps the
lease, so the next one asks with the same ids. The service claims an id when a request arrives and
answers a later one only with what it recorded (`http.rs:150-186`): an id whose first request failed,
or never came to its end, is answered with `request_in_progress` for ever (`failed_id_burnt`).

`retry_signs_iff`: the pass ends in `SIGNED` just where, for every round, the service has no record of
the id or one that succeeded for the same bytes.
-/
namespace AtlasCex.Mpc
open List

/-- The id whose row a task goes on with. -/
def Task.owns : Task → Option RequestId
  | .won r | .signed r _ _ => some r.requestId
  | _ => none

namespace Service

open Lib (exec)

variable {config : Config} {s t : Service} {r : SignRequest} {signature : Bytes}

/-! ## A request nothing disturbs -/

/-- The service can sign the request, and would with `signature`. -/
structure Able (config : Config) (s : Service) (r : SignRequest) (signature : Bytes) : Prop where
  accepted : accept config r = .ok ()
  length : signature.length = 64
  signs : match config.role with
    | .singleKey => ∃ key, s.store.loadKey r.keyRef = some key ∧
      signature = config.keys.sign key.secret r.payload
    | .coordinator _ => s.house.isSome = true ∧ ∃ group, s.packageFor r.keyRef = some group ∧
      config.keys.verify group r.payload signature = true

/-- The request id is new to the service, or was answered for these bytes, by whichever key. -/
def Unspent (config : Config) (s : Service) (r : SignRequest) : Prop :=
  ∀ row, s.store.findRequest r.requestId = some row →
    row.outcome = .succeeded ∧ row.payloadHash = config.prims.sha256 r.payload ∧
      (config.role = .singleKey → (s.store.loadKey row.keyRef).isSome = true) ∧
      ∃ signature, row.signature = some signature ∧ signature.length = 64

/-- The key a fresh signature is reported with, where it is not the coordinator's. -/
def loadedKey (config : Config) (s : Service) (r : SignRequest) : Option Bytes :=
  match config.role with
  | .singleKey => (s.store.loadKey r.keyRef).map (·.publicKey)
  | .coordinator _ => none

def handler (config : Config) (s : Service) (r : SignRequest) (signature : Bytes) : List Label :=
  match s.store.findRequest r.requestId with
  | none => [.arrive r, .work (.won r) (some signature),
      .work (.signed r signature (s.loadedKey config r)) none]
  | some row => [.arrive r, .work (.lost r) none] ++
      if row.payloadHash = config.prims.sha256 r.payload then [.work (.matched r) none] else []

def Answered (s : Service) (r : SignRequest) : Prop :=
  ∃ a ∈ s.answers, a.request = r ∧ a.signature.length = 64

instance (s : Service) (r : SignRequest) : Decidable (s.Answered r) :=
  inferInstanceAs (Decidable (∃ a ∈ s.answers, _))

/-- On the way from `s` to `t` the request was answered with a signature of the right length. -/
def Replied (s t : Service) (r : SignRequest) : Prop :=
  ∃ a ∈ t.answers.drop s.answers.length, a.request = r ∧ a.signature.length = 64

instance (s t : Service) (r : SignRequest) : Decidable (Replied s t r) :=
  inferInstanceAs (Decidable (∃ a ∈ t.answers.drop s.answers.length, _))

theorem replied_concat {a : Answer} (h : t.answers = s.answers ++ [a]) :
    Replied s t r ↔ a.request = r ∧ a.signature.length = 64 := by
  simp [Replied, h]

/-- The request is answered if its id is unspent; other ids and the keys are as they were. -/
structure Handled (config : Config) (s : Service) (r : SignRequest) (t : Service) : Prop where
  replied : Replied s t r ↔ Unspent config s r
  answers : s.answers <+: t.answers
  others : ∀ id, id ≠ r.requestId → t.store.findRequest id = s.store.findRequest id
  keys : t.store.keys = s.store.keys
  groupKeys : t.store.groupKeys = s.store.groupKeys
  house : t.house = s.house

variable {task : Task}

theorem step_head {tasks : List Task} (outside : Option Bytes) (htasks : s.tasks = task :: tasks) :
    step config s (.work task outside) = some (work config { s with tasks := tasks } outside task) := by
  simp only [step, htasks, mem_cons_self, if_true, erase_cons_head]

/-- A new id: the row, the signature, the answer. -/
theorem handler_new (h : Able config s r signature) (hnew : s.store.findRequest r.requestId = none) :
    ∃ t, exec (step config) s (handler config s r signature) = some t ∧ Handled config s r t := by
  let claimed : Store := { s.store with requests := s.store.requests ++
    [⟨r.requestId, r.keyRef, config.prims.sha256 r.payload, .requested, none⟩] }
  let operated : Service := { s with store := claimed, operations := s.operations ++ [r.requestId] }
  have harrive : s.arrive config r = ({ s with store := claimed } : Service).spawn (.won r) := by
    simp only [arrive, h.accepted, Store.claimRequest, hnew, Option.isSome_none, Bool.false_eq_true,
      if_false]
    rfl
  have hperform : perform config { s with store := claimed } r (some signature) =
      operated.spawn (.signed r signature (s.loadedKey config r)) := by
    have hsigns := h.signs
    unfold perform loadedKey
    cases hrole : config.role with
    | singleKey =>
      rw [hrole] at hsigns
      obtain ⟨key, hkey, rfl⟩ := hsigns
      have hkey' : claimed.loadKey r.keyRef = some key := hkey
      simp only [hkey, hkey']
      rfl
    | coordinator houseRef =>
      rw [hrole] at hsigns
      obtain ⟨-, group, hgroup, hverify⟩ := hsigns
      have hgroup' : operated.packageFor r.keyRef = some group := hgroup
      simp only [operated] at hgroup'
      simp only [hgroup', hverify, if_true]
      rfl
  have hkey : ∃ publicKey, (s.loadedKey config r).or s.house = some publicKey := by
    have hsigns := h.signs
    unfold loadedKey
    cases hrole : config.role with
    | singleKey =>
      rw [hrole] at hsigns
      obtain ⟨key, hkey, -⟩ := hsigns
      exact ⟨key.publicKey, by simp [hkey]⟩
    | coordinator houseRef =>
      rw [hrole] at hsigns
      obtain ⟨publicKey, hhouse⟩ := Option.isSome_iff_exists.1 hsigns.1
      exact ⟨publicKey, by simp [hhouse]⟩
  obtain ⟨publicKey, hkey⟩ := hkey
  let answered : Service := { operated with
    store := claimed.complete r.requestId signature
    answers := s.answers ++ [⟨r, signature, publicKey, false⟩] }
  refine ⟨answered, ?_, ?_⟩
  · have hfirst : step config s (.arrive r) = some _ := congrArg some harrive
    have hsecond : step config (({ s with store := claimed } : Service).spawn (.won r))
        (.work (.won r) (some signature)) = some _ :=
      (step_head (some signature) rfl).trans (congrArg some hperform)
    have hthird : step config (operated.spawn (.signed r signature (s.loadedKey config r)))
        (.work (.signed r signature (s.loadedKey config r)) none) = some answered := by
      rw [step_head none rfl]
      simp only [work, groupPublicKey, operated, spawn, hkey]
      rfl
    simp only [handler, hnew, exec, hfirst, hsecond, hthird, Option.bind_some]
  · refine ⟨iff_of_true ((replied_concat rfl).2 ⟨rfl, h.length⟩) fun row hrow => ?_,
      prefix_append _ _, fun id hne => ?_, rfl, rfl, rfl⟩
    · rw [hnew] at hrow
      cases hrow
    have hclaim : s.store.claimRequest r.requestId r.keyRef (config.prims.sha256 r.payload) =
        (true, claimed) := by
      simp only [Store.claimRequest, hnew, Option.isSome_none, Bool.false_eq_true, if_false]
      rfl
    obtain ⟨-, htaken⟩ | ⟨-, other, hother, -, -, hfind⟩ :=
      s.store.claimRequest_cases r.requestId r.keyRef (config.prims.sha256 r.payload)
    · rw [hclaim] at htaken
      cases htaken
    · rw [hclaim] at hother
      cases hother
      show (claimed.complete r.requestId signature).findRequest id = _
      rw [Store.findRequest_complete, if_neg hne, hfind, if_neg hne]

/-- What is recorded under a taken id is an answer if the id is unspent. -/
theorem recorded_iff {row : SigningRequest} (h : Able config s r signature)
    (hrow : s.store.findRequest r.requestId = some row)
    (hpayload : row.payloadHash = config.prims.sha256 r.payload) :
    (∃ recorded publicKey, s.recorded config r = some (recorded, publicKey) ∧ recorded.length = 64) ↔
      Unspent config s r := by
  have hsigns := h.signs
  simp only [Unspent, hrow, Option.some.injEq, forall_eq', hpayload, true_and, Service.recorded]
  cases hrole : config.role with
  | singleKey =>
    simp only [Store.completedSignature, hrow, Option.bind_some, true_implies]
    split <;> cases row.signature <;> cases s.store.loadKey row.keyRef <;> simp_all
  | coordinator houseRef =>
    rw [hrole] at hsigns
    obtain ⟨publicKey, hhouse⟩ := Option.isSome_iff_exists.1 hsigns.1
    simp only [Store.completedSignatureOnly, hrow, Option.bind_some, groupPublicKey, hhouse]
    split <;> cases row.signature <;> simp_all

/-- A taken id: the row is compared, and what it holds is the answer. -/
theorem handler_taken {row : SigningRequest} (h : Able config s r signature)
    (hrow : s.store.findRequest r.requestId = some row) :
    ∃ t, exec (step config) s (handler config s r signature) = some t ∧ Handled config s r t := by
  have harrive : s.arrive config r = s.spawn (.lost r) := by
    simp only [arrive, h.accepted, Store.claimRequest, hrow, Option.isSome_some, if_true]
  have hfirst : step config s (.arrive r) = some _ := congrArg some harrive
  by_cases hpayload : row.payloadHash = config.prims.sha256 r.payload
  · have hlost : work config s none (.lost r) = s.spawn (.matched r) := by
      simp only [work, Store.claimedPayloadHash, hrow, Option.map_some, hpayload, if_true]
    have hsecond : step config (s.spawn (.lost r)) (.work (.lost r) none) = some _ :=
      (step_head none rfl).trans (congrArg some hlost)
    have hthird : step config (s.spawn (.matched r)) (.work (.matched r) none) =
        some (work config s none (.matched r)) := step_head none rfl
    refine ⟨work config s none (.matched r), ?_, ?_⟩
    · simp only [handler, hrow, hpayload, if_true, cons_append, nil_append, exec, hfirst, hsecond,
        hthird, Option.bind_some]
    · have hunspent := recorded_iff h hrow hpayload
      simp only [work]
      cases hrecorded : s.recorded config r with
      | none =>
        rw [hrecorded] at hunspent
        exact ⟨by simpa [Replied] using hunspent, prefix_refl _, fun _ _ => rfl, rfl, rfl, rfl⟩
      | some answer =>
        rw [hrecorded] at hunspent
        refine ⟨(replied_concat rfl).trans (Iff.trans ?_ hunspent), prefix_append _ _,
          fun _ _ => rfl, rfl, rfl, rfl⟩
        simp only [Option.some.injEq, true_and]
        exact ⟨fun hlength => ⟨_, _, rfl, hlength⟩, by rintro ⟨_, _, rfl, hlength⟩; exact hlength⟩
  · have hlost : work config s none (.lost r) = s := by
      simp only [work, Store.claimedPayloadHash, hrow, Option.map_some, Option.some.injEq, hpayload,
        if_false]
    have hsecond : step config (s.spawn (.lost r)) (.work (.lost r) none) = some _ :=
      (step_head none rfl).trans (congrArg some hlost)
    refine ⟨s, ?_, ?_⟩
    · simp only [handler, hrow, hpayload, if_false, append_nil, exec, hfirst, hsecond, Option.bind_some]
    · refine ⟨iff_of_false (by simp [Replied]) fun hfree => ?_, prefix_refl _, fun _ _ => rfl, rfl, rfl,
        rfl⟩
      exact hpayload (hfree row hrow).2.1

theorem handler_handles (h : Able config s r signature) :
    ∃ t, exec (step config) s (handler config s r signature) = some t ∧ Handled config s r t := by
  cases hrow : s.store.findRequest r.requestId with
  | none => exact handler_new h hrow
  | some row => exact handler_taken h hrow

/-- Another request changes nothing for this one. -/
theorem Handled.able {other : SignRequest} (ht : Handled config s other t)
    (h : Able config s r signature) : Able config t r signature := by
  refine ⟨h.accepted, h.length, ?_⟩
  have hsigns := h.signs
  cases hrole : config.role with
  | singleKey =>
    rw [hrole] at hsigns
    simp only [Store.loadKey, ht.keys]
    exact hsigns
  | coordinator houseRef =>
    rw [hrole] at hsigns
    simp only [packageFor, Store.loadGroupKey, ht.groupKeys, ht.house]
    exact hsigns

theorem Handled.unspent_iff {other : SignRequest} (ht : Handled config s other t)
    (hne : r.requestId ≠ other.requestId) : Unspent config t r ↔ Unspent config s r := by
  simp only [Unspent, ht.others r.requestId hne, Store.loadKey, ht.keys]

/-- The requests one after the other up to the first that is not answered, and whether all were. -/
def handlers (config : Config) : Service → List SignRequest → (SignRequest → Bytes) →
    List Label × Bool
  | _, [], _ => ([], true)
  | s, r :: rs, signature =>
    let labels := handler config s r (signature r)
    let t := (exec (step config) s labels).getD s
    if Replied s t r then
      let (rest, all) := handlers config t rs signature
      (labels ++ rest, all)
    else (labels, false)

theorem handlers_answer {signature : SignRequest → Bytes} {rs : List SignRequest}
    (hids : (rs.map (·.requestId)).Nodup) (h : ∀ r ∈ rs, Able config s r (signature r)) :
    ∃ t, exec (step config) s (handlers config s rs signature).1 = some t ∧
      s.answers <+: t.answers ∧
      ((handlers config s rs signature).2 = true ↔ ∀ r ∈ rs, Unspent config s r) ∧
      ((handlers config s rs signature).2 = true → ∀ r ∈ rs, t.Answered r) := by
  induction rs generalizing s with
  | nil => exact ⟨s, rfl, prefix_refl _, by simp [handlers], fun _ r hr => absurd hr not_mem_nil⟩
  | cons r rs ih =>
    rw [map_cons, nodup_cons] at hids
    obtain ⟨u, hu, hhandled⟩ := handler_handles (h r mem_cons_self)
    have hsame : (∀ r' ∈ rs, Unspent config u r') ↔ ∀ r' ∈ rs, Unspent config s r' :=
      forall₂_congr fun r' hr' => hhandled.unspent_iff fun heq => hids.1 (heq ▸ mem_map_of_mem hr')
    simp only [handlers, hu, Option.getD_some, forall_mem_cons, ← hhandled.replied]
    by_cases hreplied : Replied s u r
    · obtain ⟨t, ht, hanswers, hall, hrest⟩ := ih hids.2
        (fun r' hr' => hhandled.able (h r' (mem_cons_of_mem r hr')))
      rw [if_pos hreplied]
      refine ⟨t, ?_, hhandled.answers.trans hanswers, ?_, fun hyes => ⟨?_, hrest hyes⟩⟩
      · simp only [Lib.exec_append, hu, Option.bind_some, ht]
      · simp only [hall, hsame, hreplied, true_and]
      · obtain ⟨a, ha, hrequest, hlength⟩ := hreplied
        exact ⟨a, hanswers.subset (mem_of_mem_drop ha), hrequest, hlength⟩
    · rw [if_neg hreplied]
      exact ⟨u, hu, hhandled.answers, by simp [hreplied], nofun⟩

/-! ## A request that did not come to its end -/

/-- The id is taken, it has not succeeded, and nobody is at work on it. -/
structure Burnt (s : Service) (id : RequestId) : Prop where
  row : ∃ row, s.store.findRequest id = some row ∧ row.outcome ≠ .succeeded
  tasks : ∀ task ∈ s.tasks, task.owns ≠ some id
  answers : ∀ a ∈ s.answers, a.request.requestId ≠ id

variable {id : RequestId}

theorem Burnt.store (h : s.Burnt id) (store : Store)
    (hsame : store.findRequest id = s.store.findRequest id) :
    ({ s with store := store } : Service).Burnt id :=
  ⟨by rw [hsame]; exact h.row, h.tasks, h.answers⟩

theorem Burnt.spawn (h : s.Burnt id) (htask : task.owns ≠ some id) :
    (s.spawn task).Burnt id := by
  refine ⟨h.row, fun t ht => ?_, h.answers⟩
  rcases mem_cons.1 ht with rfl | ht
  · exact htask
  · exact h.tasks t ht

theorem Burnt.answer {publicKey : Bytes} {replayed : Bool} (h : s.Burnt id)
    (hr : r.requestId ≠ id) : (s.answer r signature publicKey replayed).Burnt id := by
  refine ⟨h.row, h.tasks, fun a ha => ?_⟩
  rcases mem_append.1 ha with ha | ha
  · exact h.answers a ha
  · rw [mem_singleton.1 ha]
    exact hr

theorem Burnt.failed (h : s.Burnt id) (hr : r.requestId ≠ id) : (s.failed r).Burnt id :=
  h.store _ (by rw [Store.findRequest_fail, if_neg hr.symm])

theorem Burnt.operated (h : s.Burnt id) (operations : List RequestId) :
    ({ s with operations := operations } : Service).Burnt id :=
  ⟨h.row, h.tasks, h.answers⟩

theorem Burnt.perform (h : s.Burnt id) (hr : r.requestId ≠ id) (outside : Option Bytes) :
    (s.perform config r outside).Burnt id := by
  have howns : ∀ signature publicKey, (Task.signed r signature publicKey).owns ≠ some id :=
    fun _ _ heq => hr (Option.some.inj heq)
  simp only [Service.perform]
  split <;> split
  · exact (h.operated _).spawn (howns _ _)
  · exact h.failed hr
  · split
    · exact (h.operated _).spawn (howns _ _)
    · exact (h.operated _).failed hr
  · exact (h.operated _).failed hr

/-- What is recorded for the id is not an answer. -/
theorem Burnt.recorded (h : s.Burnt id) (hr : r.requestId = id) : s.recorded config r = none := by
  obtain ⟨row, hrow, houtcome⟩ := h.row
  rw [← hr] at hrow
  simp only [Service.recorded]
  split
  · simp only [Store.completedSignature, hrow, Option.bind_some, if_neg houtcome]
  · simp only [Store.completedSignatureOnly, hrow, Option.bind_some, if_neg houtcome,
      Option.bind_none]

theorem Burnt.work (h : s.Burnt id) (htask : task.owns ≠ some id)
    (outside : Option Bytes) : (work config s outside task).Burnt id := by
  cases task with
  | won r => exact h.perform (fun heq => htask (congrArg some heq)) outside
  | signed r signature publicKey =>
    have hr : r.requestId ≠ id := fun heq => htask (congrArg some heq)
    have hcompleted := h.store (s.store.complete r.requestId signature)
      (by rw [Store.findRequest_complete, if_neg hr.symm])
    simp only [Service.work]
    split
    · exact hcompleted.answer hr
    · exact hcompleted
  | lost r =>
    simp only [Service.work]
    split
    · exact h.spawn (Option.some_ne_none id).symm
    · exact h
  | matched r =>
    simp only [Service.work]
    split
    · rename_i hrecorded
      refine h.answer fun heq => ?_
      rw [h.recorded heq] at hrecorded
      cases hrecorded
    · exact h

theorem Burnt.step {label : Label} (h : s.Burnt id) (hstep : step config s label = some t) :
    t.Burnt id := by
  cases label with
  | arrive r =>
    cases hstep
    obtain ha | ⟨-, -, ha⟩ | ⟨-, hnone, claimed, ha, -, -, hfind⟩ := arrive_cases config s r
    · rw [ha]
      exact h
    · rw [ha]
      exact h.spawn (Option.some_ne_none id).symm
    · obtain ⟨row, hrow, -⟩ := h.row
      have hne : r.requestId ≠ id := by
        rintro rfl
        rw [hnone] at hrow
        cases hrow
      rw [ha]
      exact (h.store claimed (by rw [hfind, if_neg hne.symm])).spawn fun heq => hne (Option.some.inj heq)
  | work task outside =>
    obtain ⟨hmem, ⟨⟩⟩ := Option.ite_none_right_eq_some.1 hstep
    have herased : ({ s with tasks := s.tasks.erase task } : Service).Burnt id :=
      ⟨h.row, fun t ht => h.tasks t (mem_of_mem_erase ht), h.answers⟩
    exact herased.work (h.tasks task hmem) outside
  | restart =>
    cases hstep
    exact ⟨h.row, fun _ ht => absurd ht not_mem_nil, h.answers⟩
  | ensureKey keyRef secret =>
    cases hstep
    refine h.store _ ?_
    unfold Store.storeKey
    split <;> rfl
  | storeGroupKey keyRef group =>
    cases hstep
    refine h.store _ ?_
    unfold Store.storeGroupKey
    split <;> rfl

end Service
end AtlasCex.Mpc

namespace AtlasCex.Withdrawals

open Mpc (Bytes KeyRef RequestId SignRequest)

/-! ## The workers and the service -/

structure Deployment where
  workers : Config
  mpc : Mpc.Config
  /-- `keyRefId`: the house's key. -/
  keyRefId : KeyRef
  /-- The key of the address the funds leave from, where it is not the treasury's. -/
  source : WithdrawalId → Option KeyRef
  /-- The withdrawal's id and the nonce value, as they stand in a request id. -/
  idText : WithdrawalId → String
  nonceText : AccountId → Nat → String
  /-- The signed proof over a message. -/
  authorization : WithdrawalId → Bytes → Mpc.AuthorizationProof

/-- One request for each signer of the transaction. -/
def rounds (d : Deployment) (tx : Tx) (message : Bytes) : List SignRequest :=
  let requestId := "withdrawal:" ++ d.idText tx.withdrawal ++ ":" ++ d.nonceText tx.account tx.nonce
  let authorization := d.authorization tx.withdrawal message
  ⟨requestId, d.keyRefId, message, authorization⟩ ::
    (d.source tx.withdrawal).toList.map fun keyRef =>
      ⟨requestId ++ ":source", keyRef, message, authorization⟩

structure System where
  world : World
  service : Mpc.Service

namespace System

inductive Label where
  | worker (label : Withdrawals.Label)
  | signed (tx : Tx) (message : Bytes)
  | service (label : Mpc.Label)

/-- The workers and the service take their steps; a worker has its bytes signed only with an answer
for every round. -/
def step (d : Deployment) (s : System) : Label → Option System
  | .worker (.work (.sign _) .ok) => none
  | .worker label => (World.step d.workers s.world label).map fun world => { s with world }
  | .signed tx message =>
    if ∀ r ∈ rounds d tx message, s.service.Answered r then
      (World.step d.workers s.world (.work (.sign tx) .ok)).map fun world => { s with world }
    else none
  | .service label => (Mpc.Service.step d.mpc s.service label).map fun service => { s with service }

/-- The account `lease` gives: the one held, or else one that is available. -/
def leasing (d : Deployment) (s : World) (w : WithdrawalId) : Option AccountId :=
  (d.workers.pool.find? (s.leases · = .leased w)).or (d.workers.pool.find? (s.leases · = .available))

/-- The worker's call throws. -/
def throws (tx : Tx) : List Label :=
  [.worker (.work (.sign tx) .throws), .worker (.work (.move tx.withdrawal .signError) .ok)]

/-- A retry pass and a signing pass for one withdrawal in `SIGN_FAILED`, with everything healthy. The
worker asks for one round after the other, and throws at the first that is not answered. -/
def pass (d : Deployment) (s : System) (w : WithdrawalId) (account : AccountId) (message : Bytes)
    (signature : SignRequest → Bytes) : List Label :=
  let tx : Tx := ⟨w, account, s.world.finalized account⟩
  let retry : List Withdrawals.Label := [.listRetry w .sign, .work (.move w (.retry .sign)) .ok]
  let take : List Withdrawals.Label :=
    [.claimSign w, .work (.lease w) (.account (some account)), .work (.readNonce w account) .ok]
  let (labels, all) := Mpc.Service.handlers d.mpc s.service (rounds d tx message) signature
  (retry ++ take).map .worker ++ labels.map .service ++
    if all then [.signed tx message, .worker (.work (.persist tx) .ok)] else throws tx

/-! ## The pass, step by step -/

variable {d : Deployment} {s : System} {world world' : World} {w : WithdrawalId} {account : AccountId}

open Lib (exec)

theorem exec_worker (labels : List Withdrawals.Label)
    (hlabels : ∀ tx, Withdrawals.Label.work (.sign tx) .ok ∉ labels) (s : System) :
    exec (step d) s (labels.map .worker) =
      (exec (World.step d.workers) s.world labels).map fun world => { s with world } := by
  induction labels generalizing s with
  | nil => rfl
  | cons label labels ih =>
    have hstep : step d s (.worker label) =
        (World.step d.workers s.world label).map fun world => { s with world } := by
      unfold step
      split
      · rename_i heq
        cases heq
        exact absurd List.mem_cons_self (hlabels _)
      · rename_i heq
        cases heq
        rfl
      · rename_i heq
        cases heq
      · rename_i heq
        cases heq
    rw [List.map_cons, exec, hstep, exec]
    cases World.step d.workers s.world label with
    | none => rfl
    | some world => exact ih (fun tx htx => hlabels tx (List.mem_cons_of_mem _ htx)) _

theorem exec_service (labels : List Mpc.Label) (s : System) :
    exec (step d) s (labels.map .service) =
      (exec (Mpc.Service.step d.mpc) s.service labels).map fun service => { s with service } := by
  induction labels generalizing s with
  | nil => rfl
  | cons label labels ih =>
    rw [List.map_cons, exec, exec]
    simp only [step]
    cases Mpc.Service.step d.mpc s.service label with
    | none => rfl
    | some service => exact ih _

theorem rounds_nodup (d : Deployment) (tx : Tx) (message : Bytes) :
    ((rounds d tx message).map (·.requestId)).Nodup := by
  unfold rounds
  cases d.source tx.withdrawal with
  | none => simp
  | some keyRef =>
    simp only [Option.toList_some, List.map_cons, List.map_nil, List.nodup_cons, List.mem_singleton,
      List.not_mem_nil, not_false_eq_true, List.nodup_nil, and_true]
    intro heq
    have hlength := congrArg String.length heq
    have hsource : (":source" : String).length = 7 := by decide
    rw [String.length_append _ ":source", hsource] at hlength
    omega

theorem step_head {config : Config} {task : Task} {tasks : List Task} {choice : Choice}
    {next : Option Task} (htasks : world.tasks = task :: tasks)
    (hwork : World.work config { world with tasks := tasks } task choice = some (world', next)) :
    World.step config world (.work task choice) = some (world'.spawn next) := by
  simp only [World.step, htasks, List.mem_cons_self, if_true, List.erase_cons_head, hwork,
    Option.map_some]

/-- The retry pass puts the row back in the queue. -/
theorem requeues {config : Config} (hstatus : (world.rows w).status = .signFailed)
    (hbudget : (world.rows w).signAttempts < config.budget .sign) :
    ∃ t, exec (World.step config) world
        [.listRetry w .sign, .work (.move w (.retry .sign)) .ok] = some t ∧
      (t.rows w).status = .fundsLocked ∧ t.leases = world.leases ∧ t.finalized = world.finalized := by
  have htask : World.retryTask config w (world.rows w) .sign = .move w (.retry .sign) := by
    unfold World.retryTask
    rw [if_neg (show ¬config.budget .sign ≤ RetryEdge.sign.attempts (world.rows w) from
      Nat.not_le.2 hbudget), if_neg nofun]
  have hlist : World.step config world (.listRetry w .sign) =
      some (world.spawn (some (.move w (.retry .sign)))) := by
    rw [← htask]
    simp only [World.step]
    rw [if_pos (show (world.rows w).status = RetryEdge.sign.status from hstatus)]
  have hmove : World.step config (world.spawn (some (.move w (.retry .sign))))
      (.work (.move w (.retry .sign)) .ok) =
        some ((world.transition w .signFailed .fundsLocked none).spawn none) :=
    step_head rfl rfl
  refine ⟨(world.transition w .signFailed .fundsLocked none).spawn none, ?_, ?_, rfl, rfl⟩
  · simp only [exec, hlist, hmove, Option.bind_some]
  · rw [World.transition_setRow rfl, if_pos hstatus]
    show (Function.update world.rows w _ w).status = _
    rw [Function.update_self]
    rfl

theorem leaseFor_leasing (h : leasing d world w = some account) : ∃ leases,
    world.leaseFor d.workers w (some account) = some (some account, { world with leases := leases }) := by
  unfold leasing at h
  unfold World.leaseFor
  cases hheld : d.workers.pool.find? (world.leases · = .leased w) with
  | some held =>
    rw [hheld] at h
    cases h
    exact ⟨world.leases, rfl⟩
  | none =>
    rw [hheld, Option.none_or] at h
    have havailable : world.leases account = .available := by
      simpa using List.find?_some h
    refine ⟨Function.update world.leases account (.leased w), ?_⟩
    simp only [if_pos (And.intro (List.mem_of_find?_eq_some h) havailable)]

/-- The signing pass takes the row and reads the nonce. -/
theorem takes (hstatus : (world.rows w).status = .fundsLocked)
    (haccount : leasing d world w = some account) :
    ∃ t tasks, exec (World.step d.workers) world
        [.claimSign w, .work (.lease w) (.account (some account)), .work (.readNonce w account) .ok] =
          some t ∧
      (t.rows w).status = .signing ∧
      t.tasks = .sign ⟨w, account, world.finalized account⟩ :: tasks := by
  let claimed := world.setRow w { world.rows w with status := .signing }
  have hclaim : World.step d.workers world (.claimSign w) = some (claimed.spawn (some (.lease w))) :=
    World.step_claimSign hstatus
  obtain ⟨leases, hlease⟩ := leaseFor_leasing (show leasing d claimed w = some account from haccount)
  have hwork : World.work d.workers claimed (.lease w) (.account (some account)) =
      some ({ claimed with leases := leases }, some (.readNonce w account)) := by
    simp only [World.work, hlease, Option.map_some]
  have hleased : World.step d.workers (claimed.spawn (some (.lease w)))
      (.work (.lease w) (.account (some account))) =
        some (({ claimed with leases := leases } : World).spawn (some (.readNonce w account))) :=
    step_head rfl hwork
  have hread : World.step d.workers
      (({ claimed with leases := leases } : World).spawn (some (.readNonce w account)))
      (.work (.readNonce w account) .ok) =
        some (({ claimed with leases := leases } : World).spawn
          (some (.sign ⟨w, account, world.finalized account⟩))) := step_head rfl rfl
  refine ⟨({ claimed with leases := leases } : World).spawn
    (some (.sign ⟨w, account, world.finalized account⟩)), claimed.tasks, ?_, ?_, rfl⟩
  · simp only [exec, hclaim, hleased, hread, Option.bind_some]
  · show (Function.update world.rows w _ w).status = _
    rw [Function.update_self]

/-- Signed bytes are stored with the row. -/
theorem persists {c : Config} {tx : Tx} {tasks : List Task}
    (hstatus : (world.rows tx.withdrawal).status = .signing) (htasks : world.tasks = .sign tx :: tasks) :
    ∃ t t', World.step c world (.work (.sign tx) .ok) = some t ∧
      World.step c t (.work (.persist tx) .ok) = some t' ∧
      (t'.rows tx.withdrawal).status = .signed := by
  have hrow := World.transition_some .signed rfl hstatus
  have hsign : World.step c world (.work (.sign tx) .ok) =
      some (({ world with tasks := tasks, signed := tx :: world.signed } : World).spawn
        (some (.persist tx))) := step_head htasks rfl
  refine ⟨_, _, hsign, step_head rfl (by simp only [World.work, World.spawn, hrow]; rfl), ?_⟩
  show (Function.update world.rows tx.withdrawal _ tx.withdrawal).status = _
  rw [Function.update_self]

/-- A call that throws leaves the row in `SIGN_FAILED`. -/
theorem gives_up {tx : Tx} {tasks : List Task} (s : System)
    (hstatus : (s.world.rows tx.withdrawal).status = .signing)
    (htasks : s.world.tasks = .sign tx :: tasks) :
    ∃ t, exec (step d) s (throws tx) = some t ∧
      (t.world.rows tx.withdrawal).status = .signFailed := by
  let world : World := { s.world with tasks := tasks }
  have hsign : World.step d.workers s.world (.work (.sign tx) .throws) =
      some (world.spawn (some (.move tx.withdrawal .signError))) := step_head htasks rfl
  have hmove : World.step d.workers (world.spawn (some (.move tx.withdrawal .signError)))
      (.work (.move tx.withdrawal .signError) .ok) =
        some ((world.transition tx.withdrawal .signing .signFailed (some .sign)).spawn none) :=
    step_head rfl rfl
  let failed := world.transition tx.withdrawal .signing .signFailed (some .sign)
  refine ⟨⟨failed.spawn none, s.service⟩, ?_, ?_⟩
  · simp only [throws, exec, step, hsign, hmove, Option.map_some, Option.bind_some]
    rfl
  · have hrow : failed = _ := (World.transition_setRow rfl).trans (if_pos hstatus)
    rw [hrow]
    show (Function.update world.rows tx.withdrawal _ tx.withdrawal).status = _
    rw [Function.update_self]
    rfl

/-- **A retry pass and a signing pass**, with everything healthy, bring a withdrawal from `SIGN_FAILED`
to `SIGNED` just where the service has, for every round of this nonce, no record of the request id or
one that succeeded for the same bytes. -/
theorem retry_signs_iff (d : Deployment) (s : System) (w : WithdrawalId) (account : AccountId)
    (message : Bytes) (signature : SignRequest → Bytes)
    (hstatus : (s.world.rows w).status = .signFailed)
    (hbudget : (s.world.rows w).signAttempts < d.workers.budget .sign)
    (haccount : leasing d s.world w = some account)
    (hable : ∀ r ∈ rounds d ⟨w, account, s.world.finalized account⟩ message,
      s.service.Able d.mpc r (signature r)) :
    ∃ s', exec (step d) s (pass d s w account message signature) = some s' ∧
      ((s'.world.rows w).status = .signed ↔
        ∀ r ∈ rounds d ⟨w, account, s.world.finalized account⟩ message,
          s.service.Unspent d.mpc r) := by
  obtain ⟨t, hrequeue, htstatus, htleases, htfinalized⟩ := requeues hstatus hbudget
  have htaccount : leasing d t w = some account := by
    unfold leasing
    rw [htleases]
    exact haccount
  obtain ⟨u, tasks, htake, hustatus, hutasks⟩ := takes htstatus htaccount
  rw [htfinalized] at hutasks
  obtain ⟨service, hservice, -, hall, hanswered⟩ :=
    Mpc.Service.handlers_answer (rounds_nodup d _ message) hable
  have hworkers := exec_worker (d := d) ([.listRetry w .sign, .work (.move w (.retry .sign)) .ok] ++
    [.claimSign w, .work (.lease w) (.account (some account)), .work (.readNonce w account) .ok])
    (by simp) s
  rw [Lib.exec_append, hrequeue, Option.bind_some, htake, Option.map_some] at hworkers
  rw [← hall]
  simp only [pass, Lib.exec_append, hworkers, Option.bind_some, exec_service, hservice,
    Option.map_some]
  by_cases hyes : (Mpc.Service.handlers d.mpc s.service
      (rounds d ⟨w, account, s.world.finalized account⟩ message) signature).2 = true
  · obtain ⟨v, v', hsign, hpersist, hvstatus⟩ := persists (c := d.workers) hustatus hutasks
    have hsigned : step d ⟨u, service⟩ (.signed ⟨w, account, s.world.finalized account⟩ message) =
        some ⟨v, service⟩ := by
      simp only [step]
      rw [if_pos (hanswered hyes), hsign, Option.map_some]
    have hstored : step d ⟨v, service⟩
        (.worker (.work (.persist ⟨w, account, s.world.finalized account⟩) .ok)) =
          some ⟨v', service⟩ := by
      simp only [step]
      rw [hpersist, Option.map_some]
    refine ⟨⟨v', service⟩, ?_, iff_of_true hvstatus hyes⟩
    rw [if_pos hyes]
    simp only [exec, hsigned, hstored, Option.bind_some]
  · obtain ⟨v, hv, hvstatus⟩ := gives_up (d := d) ⟨u, service⟩ hustatus hutasks
    refine ⟨v, ?_, iff_of_false (fun h => ?_) hyes⟩
    · rw [if_neg hyes]
      exact hv
    · rw [hvstatus] at h
      cases h

section Runs

/-- A coordinator with the house's group and the group of the address the funds leave from. -/
def houseDeployment : Deployment where
  workers := World.sampleConfig
  mpc := Mpc.Service.plainConfig (.coordinator "treasury")
  keyRefId := "treasury"
  source := fun _ => some "user:1"
  idText := fun w => w.repr
  nonceText := fun _ nonce => nonce.repr
  authorization := fun _ _ => Mpc.hotProof

/-- With the key before it, a signature of 64 bytes. -/
def houseMessage : Bytes := List.replicate 63 5

def houseSignature (r : SignRequest) : Bytes :=
  (if r.keyRef = "treasury" then 9 else 7) :: r.payload

def houseRound : SignRequest := ⟨"withdrawal:7:0", "treasury", houseMessage, Mpc.hotProof⟩

def sourceRound : SignRequest := ⟨"withdrawal:7:0:source", "user:1", houseMessage, Mpc.hotProof⟩

/-- Withdrawal 7 is at its signature, and the house's round is answered. -/
def firstRound : List Label :=
  [.service (.storeGroupKey "treasury" [9]), .service (.storeGroupKey "user:1" [7]),
    .service .restart, .worker (.lockFunds 7)] ++ (World.prepare 0).map .worker ++
  [.service (.arrive houseRound), .service (.work (.won houseRound) (some (houseSignature houseRound))),
    .service (.work (.signed houseRound (houseSignature houseRound) none) none)]

def initial : System := ⟨World.initial, Mpc.Service.initial⟩

instance (config : Mpc.Config) (s : Mpc.Service) (r : SignRequest) : Decidable (s.Unspent config r) :=
  inferInstanceAs (Decidable (∀ row ∈ s.store.findRequest r.requestId, _ ∧ _ ∧ (_ → _) ∧
    ∃ signature ∈ row.signature, _))

/-- Each round is with a group whose shares are there. -/
structure Served (s : Mpc.Service) : Prop where
  house : s.house.isSome = true
  treasury : s.packageFor "treasury" = some [9]
  source : s.packageFor "user:1" = some [7]

theorem Served.able {s : Mpc.Service} (h : Served s) {r : SignRequest}
    (hr : r ∈ rounds houseDeployment ⟨7, 0, 0⟩ houseMessage) :
    s.Able houseDeployment.mpc r (houseSignature r) := by
  have hrounds : rounds houseDeployment ⟨7, 0, 0⟩ houseMessage = [houseRound, sourceRound] := by
    decide +kernel
  rw [hrounds, List.mem_cons, List.mem_singleton] at hr
  rcases hr with rfl | rfl
  · exact ⟨by decide +kernel, rfl, h.house, [9], h.treasury, by decide +kernel⟩
  · exact ⟨by decide +kernel, rfl, h.house, [7], h.source, by decide +kernel⟩

/-- The source's round never reached the service. -/
theorem retry_signs_source : ∃ s, exec (step houseDeployment) initial (firstRound ++ throws ⟨7, 0, 0⟩) = some s ∧
    (s.world.rows 7).status = .signFailed ∧
    ∃ s', exec (step houseDeployment) s
        (pass houseDeployment s 7 0 houseMessage houseSignature) = some s' ∧
      (s'.world.rows 7).status = .signed := by
  obtain ⟨s, hs, hstatus, hbudget, haccount, hnonce, hhouse, hgroup, hsource, hunspent⟩ :
      ∃ s, exec (step houseDeployment) initial (firstRound ++ throws ⟨7, 0, 0⟩) = some s ∧
        (s.world.rows 7).status = .signFailed ∧
        (s.world.rows 7).signAttempts < houseDeployment.workers.budget .sign ∧
        leasing houseDeployment s.world 7 = some 0 ∧ s.world.finalized 0 = 0 ∧
        s.service.house.isSome = true ∧ s.service.packageFor "treasury" = some [9] ∧
        s.service.packageFor "user:1" = some [7] ∧
        ∀ r ∈ rounds houseDeployment ⟨7, 0, 0⟩ houseMessage, s.service.Unspent houseDeployment.mpc r :=
    Lib.exec_reaches (by decide +kernel)
  obtain ⟨s', hpass, hsigned⟩ := retry_signs_iff houseDeployment s 7 0 houseMessage houseSignature
    hstatus hbudget haccount (by
      rw [hnonce]
      exact fun r hr => Served.able ⟨hhouse, hgroup, hsource⟩ hr)
  rw [hnonce] at hsigned
  exact ⟨s, hs, hstatus, s', hpass, hsigned.2 hunspent⟩

/-- A participant is away at the source's round. -/
def sourceFails : List Label :=
  [.service (.arrive sourceRound), .service (.work (.won sourceRound) none)] ++ throws ⟨7, 0, 0⟩

/-- The retry and the signing after it: both ids are taken, and only the first has an answer. -/
def signsAgain : List Label :=
  [.worker (.listRetry 7 .sign), .worker (.work (.move 7 (.retry .sign)) .ok)] ++
  (World.prepare 0).map .worker ++
  [.service (.arrive houseRound), .service (.work (.lost houseRound) none),
    .service (.work (.matched houseRound) none), .service (.arrive sourceRound),
    .service (.work (.lost sourceRound) none), .service (.work (.matched sourceRound) none)] ++ throws ⟨7, 0, 0⟩

theorem burnt_step {s t : System} {label : Label} {id : RequestId} (h : s.service.Burnt id)
    (hstep : step d s label = some t) : t.service.Burnt id := by
  unfold step at hstep
  split at hstep
  · cases hstep
  · obtain ⟨world, -, rfl⟩ := Option.map_eq_some_iff.1 hstep
    exact h
  · rw [Option.ite_none_right_eq_some, Option.map_eq_some_iff] at hstep
    obtain ⟨-, world, -, rfl⟩ := hstep
    exact h
  · obtain ⟨service, hservice, rfl⟩ := Option.map_eq_some_iff.1 hstep
    exact h.step hservice

/-- No continuation has the bytes of this nonce signed, although every group is there. -/
theorem failed_id_burnt : ∃ s,
    exec (step houseDeployment) initial (firstRound ++ sourceFails) = some s ∧
    (s.world.rows 7).status = .signFailed ∧
    (s.world.rows 7).signAttempts < houseDeployment.workers.budget .sign ∧
    leasing houseDeployment s.world 7 = some 0 ∧ s.world.finalized 0 = 0 ∧
    (∀ r ∈ rounds houseDeployment ⟨7, 0, 0⟩ houseMessage,
      s.service.Able houseDeployment.mpc r (houseSignature r)) ∧
    (∃ t, exec (step houseDeployment) s signsAgain = some t ∧
      (t.world.rows 7).status = .signFailed) ∧
    ∀ more t message, exec (step houseDeployment) s more = some t →
      step houseDeployment t (.signed ⟨7, 0, 0⟩ message) = none := by
  obtain ⟨s, hs, hstatus, hbudget, haccount, hnonce, hhouse, hgroup, hsource, hagain, hrow, htasks,
      hanswers⟩ :
      ∃ s, exec (step houseDeployment) initial (firstRound ++ sourceFails) = some s ∧
        (s.world.rows 7).status = .signFailed ∧
        (s.world.rows 7).signAttempts < houseDeployment.workers.budget .sign ∧
        leasing houseDeployment s.world 7 = some 0 ∧ s.world.finalized 0 = 0 ∧
        s.service.house.isSome = true ∧ s.service.packageFor "treasury" = some [9] ∧
        s.service.packageFor "user:1" = some [7] ∧
        ((exec (step houseDeployment) s signsAgain).any fun t =>
          (t.world.rows 7).status = .signFailed) = true ∧
        (∃ row ∈ s.service.store.findRequest "withdrawal:7:0:source", row.outcome ≠ .succeeded) ∧
        s.service.tasks = [] ∧
        ∀ a ∈ s.service.answers, a.request.requestId ≠ "withdrawal:7:0:source" :=
    Lib.exec_reaches (by decide +kernel)
  refine ⟨s, hs, hstatus, hbudget, haccount, hnonce,
    fun r hr => Served.able ⟨hhouse, hgroup, hsource⟩ hr, Lib.exec_reaches hagain,
    fun more t message hmore => ?_⟩
  have hburnt : s.service.Burnt "withdrawal:7:0:source" :=
    ⟨hrow, by rw [htasks]; exact fun _ h => absurd h List.not_mem_nil, hanswers⟩
  have hlater : t.service.Burnt "withdrawal:7:0:source" :=
    Lib.exec_always (I := fun s : System => s.service.Burnt _) hburnt (fun _ _ _ => burnt_step) hmore
  simp only [step]
  refine if_neg fun hanswered => ?_
  have hid : "withdrawal:" ++ (7 : Nat).repr ++ ":" ++ (0 : Nat).repr ++ ":source" =
      "withdrawal:7:0:source" := by decide +kernel
  obtain ⟨a, ha, hrequest, -⟩ := hanswered ⟨_, "user:1", message, Mpc.hotProof⟩
    (List.mem_cons_of_mem _ List.mem_cons_self)
  exact hlater.answers a ha (by rw [hrequest]; exact hid)

end Runs

end System
end AtlasCex.Withdrawals
