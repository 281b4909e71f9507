import AtlasCex.Mpc.Signing
/-!
# What a 200 of `/v1/sign` says

`Once` counts signing operations by request id: the claim of the row is what a `won` task and then an
operation cost, so there is at most one. `Sound` says what each task knows of the row it claimed and
of the key it will report; `Fits` is what it needs of the requests that arrive, and `reported_wrong`
is what happens without it.
-/
namespace AtlasCex.Mpc

open List
open Lib (exec Along exec_inv exec_always exec_reaches)

/-! ## The store -/

namespace Store

variable (store : Store) (id other : RequestId) (keyRef : KeyRef) (payloadHash : Bytes)

theorem findRequest_update {f : SigningRequest → SigningRequest}
    (hf : ∀ row, (f row).requestId = row.requestId) :
    (store.update id f).findRequest other =
      if other = id then (store.findRequest other).map f else store.findRequest other := by
  have hid : ∀ row : SigningRequest,
      (if row.requestId = id then f row else row).requestId = row.requestId := by
    intro row
    split
    · exact hf row
    · rfl
  simp only [update, findRequest, find?_map, Function.comp_def, hid]
  cases hrow : store.requests.find? fun row => decide (row.requestId = other) with
  | none => simp
  | some row =>
    have hother : row.requestId = other := by simpa using find?_some hrow
    by_cases h : other = id <;> simp [hother, h]

@[simp] theorem findRequest_complete (signature : Bytes) :
    (store.complete id signature).findRequest other =
      if other = id then (store.findRequest other).map fun row =>
        { row with signature := some signature, outcome := .succeeded }
      else store.findRequest other :=
  store.findRequest_update id other fun _ => rfl

@[simp] theorem findRequest_fail :
    (store.fail id).findRequest other =
      if other = id then (store.findRequest other).map fun row => { row with outcome := .failed }
      else store.findRequest other :=
  store.findRequest_update id other fun _ => rfl

/-- What the claim of an id does: nothing if it is taken, one new row if it is not. -/
theorem claimRequest_cases :
    ((store.findRequest id).isSome = true ∧
      store.claimRequest id keyRef payloadHash = (false, store)) ∨
    (store.findRequest id = none ∧ ∃ claimed,
      store.claimRequest id keyRef payloadHash = (true, claimed) ∧
      claimed.keys = store.keys ∧ claimed.groupKeys = store.groupKeys ∧
      ∀ other, claimed.findRequest other =
        if other = id then some ⟨id, keyRef, payloadHash, .requested, none⟩
        else store.findRequest other) := by
  unfold claimRequest
  cases hrow : store.findRequest id with
  | some row => exact .inl ⟨rfl, rfl⟩
  | none =>
    refine .inr ⟨rfl, _, rfl, rfl, rfl, fun other => ?_⟩
    simp only [findRequest] at hrow ⊢
    rw [find?_append]
    by_cases hother : other = id
    · subst hother
      simp [hrow]
    · simp [hother, Ne.symm hother]

theorem loadKey_storeKey {k : KeyRef} {row : KeyRow} (new : KeyRow) (h : store.loadKey k = some row) :
    (store.storeKey new).loadKey k = some row := by
  unfold storeKey
  split
  · exact h
  · simp only [loadKey] at h ⊢
    rw [find?_append, h, Option.some_or]

theorem loadGroupKey_storeGroupKey {k : KeyRef} {group : Bytes} (new : Bytes)
    (h : store.loadGroupKey k = some group) :
    (store.storeGroupKey keyRef new).loadGroupKey k = some group := by
  unfold storeGroupKey
  split
  · exact h
  · simp only [loadGroupKey, Option.map_eq_some_iff] at h ⊢
    obtain ⟨row, hrow, hgroup⟩ := h
    exact ⟨row, by rw [find?_append, hrow, Option.some_or], hgroup⟩

/-! ### What no statement undoes -/

/-- Rows stay, with the key and the payload they were claimed for; keys stay as they are. -/
structure Keeps (store after : Store) : Prop where
  rows : ∀ id row, store.findRequest id = some row → ∃ row', after.findRequest id = some row' ∧
    row'.keyRef = row.keyRef ∧ row'.payloadHash = row.payloadHash
  keys : ∀ keyRef row, store.loadKey keyRef = some row → after.loadKey keyRef = some row
  groups : ∀ keyRef group, store.loadGroupKey keyRef = some group →
    after.loadGroupKey keyRef = some group

theorem Keeps.refl : store.Keeps store :=
  ⟨fun _ row h => ⟨row, h, rfl, rfl⟩, fun _ _ h => h, fun _ _ h => h⟩

theorem keeps_complete (signature : Bytes) : store.Keeps (store.complete id signature) where
  rows other row h := by
    rw [findRequest_complete, h]
    split <;> exact ⟨_, rfl, rfl, rfl⟩
  keys _ _ h := h
  groups _ _ h := h

theorem keeps_fail : store.Keeps (store.fail id) where
  rows other row h := by
    rw [findRequest_fail, h]
    split <;> exact ⟨_, rfl, rfl, rfl⟩
  keys _ _ h := h
  groups _ _ h := h

theorem keeps_storeKey (new : KeyRow) : store.Keeps (store.storeKey new) where
  rows other row h := by
    refine ⟨row, ?_, rfl, rfl⟩
    unfold storeKey
    split <;> exact h
  keys _ _ h := store.loadKey_storeKey new h
  groups k group h := by
    unfold storeKey
    split <;> exact h

theorem keeps_storeGroupKey (new : Bytes) : store.Keeps (store.storeGroupKey keyRef new) where
  rows other row h := by
    refine ⟨row, ?_, rfl, rfl⟩
    unfold storeGroupKey
    split <;> exact h
  keys k row h := by
    unfold storeGroupKey
    split <;> exact h
  groups _ _ h := store.loadGroupKey_storeGroupKey keyRef new h

end Store

namespace Service

variable {config : Config} {s t : Service}

/-- The claim of an accepted request: a new row and the task to sign it, or the task to replay. -/
theorem arrive_cases (config : Config) (s : Service) (r : SignRequest) :
    s.arrive config r = s ∨
    (accept config r = .ok () ∧ (s.store.findRequest r.requestId).isSome = true ∧
      s.arrive config r = s.spawn (.lost r)) ∨
    (accept config r = .ok () ∧ s.store.findRequest r.requestId = none ∧ ∃ claimed,
      s.arrive config r = { s with store := claimed }.spawn (.won r) ∧ s.store.Keeps claimed ∧
      claimed.keys = s.store.keys ∧ ∀ id, claimed.findRequest id =
        if id = r.requestId then
          some ⟨r.requestId, r.keyRef, config.prims.sha256 r.payload, .requested, none⟩
        else s.store.findRequest id) := by
  unfold arrive
  cases haccept : accept config r with
  | error _ => exact .inl rfl
  | ok _ =>
    obtain ⟨hsome, hclaim⟩ | ⟨hnone, claimed, hclaim, hkeys, hgroups, hfind⟩ :=
      s.store.claimRequest_cases r.requestId r.keyRef (config.prims.sha256 r.payload)
    · exact .inr (.inl ⟨rfl, hsome, by rw [hclaim]⟩)
    · refine .inr (.inr ⟨rfl, hnone, claimed, by rw [hclaim], ⟨?_, ?_, ?_⟩, hkeys, hfind⟩)
      · intro id row hrow
        have hid : id ≠ r.requestId := by
          rintro rfl
          rw [hnone] at hrow
          cases hrow
        exact ⟨row, by rw [hfind, if_neg hid, hrow], rfl, rfl⟩
      · intro k row hrow
        rwa [Store.loadKey, hkeys]
      · intro k group hgroup
        rwa [Store.loadGroupKey, hgroups]

theorem keeps_work (config : Config) (s : Service) (outside : Option Bytes) (task : Task) :
    s.store.Keeps (work config s outside task).store := by
  cases task with
  | won r =>
    simp only [work, perform]
    split <;> split
    · exact .refl _
    · exact s.store.keeps_fail _
    · split
      · exact .refl _
      · exact s.store.keeps_fail _
    · exact s.store.keeps_fail _
  | signed r signature publicKey =>
    simp only [work]
    split <;> exact s.store.keeps_complete _ _
  | lost r =>
    simp only [work]
    split <;> exact .refl _
  | matched r =>
    simp only [work]
    split <;> exact .refl _

variable {label : Label}

theorem keeps_step (hstep : step config s label = some t) :
    s.store.Keeps t.store := by
  cases label with
  | arrive r =>
    cases hstep
    obtain h | ⟨-, -, h⟩ | ⟨-, -, claimed, h, hkeeps, -, -⟩ := arrive_cases config s r
    · rw [h]; exact .refl _
    · rw [h]; exact .refl _
    · rw [h]; exact hkeeps
  | work task outside =>
    obtain ⟨-, ⟨⟩⟩ := Option.ite_none_right_eq_some.1 hstep
    exact keeps_work config { s with tasks := s.tasks.erase task } outside task
  | restart => cases hstep; exact .refl _
  | ensureKey keyRef secret => cases hstep; exact s.store.keeps_storeKey _
  | storeGroupKey keyRef group => cases hstep; exact s.store.keeps_storeGroupKey _ _

/-! ## One operation a request id -/

def wins (id : RequestId) : Task → Bool
  | .won r => r.requestId = id
  | _ => false

/-- The tasks that will sign for an id and the operations that did. -/
def spent (s : Service) (id : RequestId) : Nat := s.tasks.countP (wins id) + s.operations.count id

def taken (s : Service) (id : RequestId) : Nat := (s.store.findRequest id).isSome.toNat

def Once (s : Service) : Prop := ∀ id, s.spent id ≤ s.taken id

theorem taken_mono (h : s.store.Keeps t.store) (id : RequestId) : s.taken id ≤ t.taken id := by
  unfold taken
  cases hrow : s.store.findRequest id with
  | none => exact Nat.zero_le _
  | some row =>
    obtain ⟨row', hrow', -, -⟩ := h.rows id row hrow
    rw [hrow']
    exact le_rfl

/-- Signing spends its task; nothing else a task does costs anything. -/
theorem spent_work (config : Config) (s : Service) (outside : Option Bytes) (task : Task)
    (id : RequestId) :
    (work config s outside task).spent id ≤ s.spent id + (wins id task).toNat := by
  cases task with
  | won r =>
    have hcount : (s.operations ++ [r.requestId]).count id =
        s.operations.count id + (decide (r.requestId = id)).toNat := by
      by_cases h : r.requestId = id <;> simp [h]
    simp only [work, perform]
    split <;> split
    · simp [spent, spawn, wins, hcount]
      omega
    · exact Nat.le_add_right _ _
    · split
      · simp [spent, spawn, wins, hcount]
        omega
      · simp only [spent, failed, wins, hcount]
        omega
    · simp only [spent, failed, wins, hcount]
      omega
  | signed r signature publicKey =>
    simp only [work]
    split <;> exact Nat.le_add_right _ _
  | lost r =>
    simp only [work]
    split
    · simp [spent, spawn, wins]
    · exact Nat.le_add_right _ _
  | matched r =>
    simp only [work]
    split <;> exact Nat.le_add_right _ _

/-- An id that was free had nothing spent on it; the new task spends the new row. -/
theorem Once.arrive (h : Once s) (r : SignRequest) : Once (s.arrive config r) := by
  obtain ha | ⟨-, -, ha⟩ | ⟨-, hnone, claimed, ha, -, -, hfind⟩ := arrive_cases config s r
  · rw [ha]; exact h
  · intro id
    have hid := h id
    simpa [ha, spent, spawn, wins, taken] using hid
  · intro id
    have hid := h id
    by_cases heq : id = r.requestId
    · subst heq
      simp only [taken, hnone, spent, Option.isSome_none, Bool.toNat_false] at hid
      simp only [ha, spent, spawn, wins, taken, hfind, countP_cons, decide_true, if_true,
        Option.isSome_some, Bool.toNat_true]
      omega
    · simpa [ha, spent, spawn, countP_cons, wins, Ne.symm heq, taken, hfind, heq] using hid

theorem Once.step (h : Once s) (hstep : step config s label = some t) : Once t := by
  have htaken := taken_mono (keeps_step hstep)
  cases label with
  | arrive r =>
    cases hstep
    exact h.arrive r
  | work task outside =>
    obtain ⟨hmem, ⟨⟩⟩ := Option.ite_none_right_eq_some.1 hstep
    intro id
    have hcount := (perm_cons_erase hmem).countP_eq (wins id)
    have hspent := spent_work config { s with tasks := s.tasks.erase task } outside task id
    refine (hspent.trans ?_).trans ((h id).trans (htaken id))
    simp only [spent, hcount, countP_cons]
    cases wins id task
    · exact Nat.le_refl _
    · rw [if_pos rfl, Bool.toNat_true]
      omega
  | restart =>
    cases hstep
    intro id
    have hid := h id
    simp only [spent, taken, countP_nil] at hid ⊢
    omega
  | ensureKey keyRef secret =>
    cases hstep
    exact fun id => (h id).trans (htaken id)
  | storeGroupKey keyRef group =>
    cases hstep
    exact fun id => (h id).trans (htaken id)

/-! ## The reported key -/

section Sound

variable (config s)

/-- The key reported for a request is the key of its key reference. A coordinator reports its house
group whatever is asked for. -/
def Reports (r : SignRequest) : Prop :=
  config.role ≠ .singleKey → s.house.isSome = true ∧ s.store.loadGroupKey r.keyRef = s.house

/-- What is asked of the requests that arrive: an id that is taken for this payload is taken for this
key, and the key reported is the one of the key reference. -/
def Fits : Label → Prop
  | .arrive r => accept config r = .ok () →
      (∀ row ∈ s.store.findRequest r.requestId,
        row.payloadHash = config.prims.sha256 r.payload → row.keyRef = r.keyRef) ∧ Reports config s r
  | _ => True

instance : ∀ label, Decidable (Fits config s label)
  | .arrive _ => by unfold Fits Reports; infer_instance
  | .work _ _ | .restart | .ensureKey _ _ | .storeGroupKey _ _ => isTrue trivial

def Claimed (r : SignRequest) : Prop :=
  ∃ row, s.store.findRequest r.requestId = some row ∧ row.keyRef = r.keyRef ∧
    row.payloadHash = config.prims.sha256 r.payload

/-- What a task knows of its row and of the key it will report. -/
def Knows : Task → Prop
  | .won r => Claimed config s r ∧ Reports config s r
  | .signed r signature publicKey => Claimed config s r ∧
      ∃ key, s.keyOf config r.keyRef = some key ∧ publicKey.or s.house = some key ∧
        config.keys.verify key r.payload signature = true
  | .lost r => (∃ row, s.store.findRequest r.requestId = some row ∧
      (row.payloadHash = config.prims.sha256 r.payload → row.keyRef = r.keyRef)) ∧ Reports config s r
  | .matched r => Claimed config s r ∧ Reports config s r

/-- A completed row holds a signature by the key of its key reference. -/
def RowRight (row : SigningRequest) : Prop :=
  ∃ signature key, row.signature = some signature ∧ s.keyOf config row.keyRef = some key ∧
    ∀ payload, config.prims.sha256 payload = row.payloadHash →
      config.keys.verify key payload signature = true

def AnswerRight (a : Answer) : Prop :=
  s.keyOf config a.request.keyRef = some a.publicKey ∧
    config.keys.verify a.publicKey a.request.payload a.signature = true

structure Sound : Prop where
  keys : ∀ keyRef row, s.store.loadKey keyRef = some row →
    row.publicKey = config.keys.publicKey row.secret
  rows : ∀ id row, s.store.findRequest id = some row → row.outcome = .succeeded →
    RowRight config s row
  tasks : ∀ task ∈ s.tasks, Knows config s task
  answers : ∀ a ∈ s.answers, AnswerRight config s a

end Sound

theorem keyOf_mono (h : s.store.Keeps t.store) {keyRef : KeyRef} {key : Bytes}
    (hkey : s.keyOf config keyRef = some key) : t.keyOf config keyRef = some key := by
  unfold keyOf at hkey ⊢
  split at hkey
  · obtain ⟨row, hrow, hpublic⟩ := Option.map_eq_some_iff.1 hkey
    rw [h.keys keyRef row hrow, Option.map_some, hpublic]
  · exact h.groups keyRef key hkey

variable {r : SignRequest}

theorem Claimed.mono (h : s.store.Keeps t.store) (hr : Claimed config s r) :
    Claimed config t r := by
  obtain ⟨row, hrow, hkey, hhash⟩ := hr
  obtain ⟨row', hrow', hkey', hhash'⟩ := h.rows _ row hrow
  exact ⟨row', hrow', hkey'.trans hkey, hhash'.trans hhash⟩

theorem Reports.mono (h : s.store.Keeps t.store) (hhouse : t.house = s.house)
    (hr : Reports config s r) : Reports config t r := by
  intro hrole
  obtain ⟨hsome, hgroup⟩ := hr hrole
  obtain ⟨group, heq⟩ := Option.isSome_iff_exists.1 hsome
  rw [heq] at hgroup
  rw [hhouse, heq]
  exact ⟨rfl, h.groups _ _ hgroup⟩

variable {task : Task}

theorem Knows.mono (h : s.store.Keeps t.store) (hhouse : t.house = s.house)
    (hk : Knows config s task) : Knows config t task := by
  cases task with
  | won r => exact ⟨hk.1.mono h, hk.2.mono h hhouse⟩
  | signed r signature publicKey =>
    obtain ⟨hclaimed, key, hkey, hreport, hverify⟩ := hk
    exact ⟨hclaimed.mono h, key, keyOf_mono h hkey, by rw [hhouse]; exact hreport, hverify⟩
  | lost r =>
    obtain ⟨⟨row, hrow, hagree⟩, hr⟩ := hk
    obtain ⟨row', hrow', hkey', hhash'⟩ := h.rows _ row hrow
    exact ⟨⟨row', hrow', fun hh => hkey'.trans (hagree (hhash'.symm.trans hh))⟩, hr.mono h hhouse⟩
  | matched r => exact ⟨hk.1.mono h, hk.2.mono h hhouse⟩

/-- From one sound state to the next: what is new must be right, the rest stays right. -/
theorem Sound.next (h : Sound config s) (hkeeps : s.store.Keeps t.store)
    (hkeys : ∀ keyRef row, t.store.loadKey keyRef = some row →
      s.store.loadKey keyRef = some row ∨ row.publicKey = config.keys.publicKey row.secret)
    (hrows : ∀ id row, t.store.findRequest id = some row → row.outcome = .succeeded →
      s.store.findRequest id = some row ∨ RowRight config t row)
    (htasks : ∀ task ∈ t.tasks, (task ∈ s.tasks ∧ t.house = s.house) ∨ Knows config t task)
    (hanswers : ∀ a ∈ t.answers, a ∈ s.answers ∨ AnswerRight config t a) : Sound config t where
  keys keyRef row hrow := (hkeys keyRef row hrow).elim (h.keys keyRef row) id
  rows id row hrow hdone := by
    obtain hold | hnew := hrows id row hrow hdone
    · obtain ⟨signature, key, hsig, hkey, hverify⟩ := h.rows id row hold hdone
      exact ⟨signature, key, hsig, keyOf_mono hkeeps hkey, hverify⟩
    · exact hnew
  tasks task hmem := by
    obtain ⟨hold, hhouse⟩ | hnew := htasks task hmem
    · exact (h.tasks task hold).mono hkeeps hhouse
    · exact hnew
  answers a hmem := by
    obtain hold | hnew := hanswers a hmem
    · obtain ⟨hkey, hverify⟩ := h.answers a hold
      exact ⟨keyOf_mono hkeeps hkey, hverify⟩
    · exact hnew

theorem Sound.spawn (h : Sound config s) (hk : Knows config s task) :
    Sound config (s.spawn task) := by
  refine h.next (.refl _) (fun _ _ => .inl) (fun _ _ h _ => .inl h) ?_ fun _ => .inl
  intro other hmem
  obtain rfl | hmem := mem_cons.1 hmem
  · exact .inr hk
  · exact .inl ⟨hmem, rfl⟩

theorem Sound.answer {signature publicKey : Bytes} {replayed : Bool}
    (h : Sound config s) (hkey : s.keyOf config r.keyRef = some publicKey)
    (hverify : config.keys.verify publicKey r.payload signature = true) :
    Sound config (s.answer r signature publicKey replayed) := by
  refine h.next (.refl _) (fun _ _ => .inl) (fun _ _ h _ => .inl h) (fun _ h => .inl ⟨h, rfl⟩) ?_
  intro a hmem
  obtain hmem | hmem := mem_append.1 hmem
  · exact .inl hmem
  · obtain rfl := mem_singleton.1 hmem
    exact .inr ⟨hkey, hverify⟩

theorem Sound.failed (h : Sound config s) (r : SignRequest) : Sound config (s.failed r) := by
  refine h.next (s.store.keeps_fail _) (fun _ _ => .inl) ?_ (fun _ h => .inl ⟨h, rfl⟩) fun _ => .inl
  intro id row hrow hdone
  simp only [Service.failed, Store.findRequest_fail] at hrow
  split at hrow
  · obtain ⟨_, -, rfl⟩ := Option.map_eq_some_iff.1 hrow
    cases hdone
  · exact .inl hrow

theorem Sound.arrive (h : Sound config s) (r : SignRequest) (hfits : Fits config s (.arrive r)) :
    Sound config (s.arrive config r) := by
  obtain ha | ⟨haccept, hsome, ha⟩ | ⟨haccept, hnone, claimed, ha, hkeeps, hkeys, hfind⟩ :=
    arrive_cases config s r
  · rw [ha]; exact h
  · obtain ⟨hrow, hreports⟩ := hfits haccept
    obtain ⟨row, hsome⟩ := Option.isSome_iff_exists.1 hsome
    rw [ha]
    exact h.spawn ⟨⟨row, hsome, hrow row hsome⟩, hreports⟩
  · obtain ⟨-, hreports⟩ := hfits haccept
    rw [ha]
    have hclaimed : Sound config { s with store := claimed } := by
      refine h.next hkeeps ?_ ?_ (fun _ h => .inl ⟨h, rfl⟩) fun _ => .inl
      · intro keyRef row hrow
        rw [Store.loadKey, hkeys] at hrow
        exact .inl hrow
      · intro id row hrow hdone
        rw [hfind] at hrow
        split at hrow
        · cases hrow
          cases hdone
        · exact .inl hrow
    have hrow := (hfind r.requestId).trans (if_pos rfl)
    exact hclaimed.spawn ⟨⟨_, hrow, rfl, rfl⟩, hreports.mono hkeeps rfl⟩

/-- A fresh signature verifies under the key of its key reference. -/
theorem Sound.perform (h : Sound config s) (hk : Knows config s (.won r))
    (outside : Option Bytes) : Sound config (s.perform config r outside) := by
  obtain ⟨hclaimed, hreports⟩ := hk
  have hop : Sound config { s with operations := s.operations ++ [r.requestId] } :=
    ⟨h.keys, h.rows, h.tasks, h.answers⟩
  unfold Service.perform
  cases hrole : config.role with
  | singleKey =>
    simp only
    split
    · rename_i key _ hkey
      refine hop.spawn ⟨hclaimed, key.publicKey, ?_, rfl, ?_⟩
      · simp [keyOf, hrole, hkey]
      · rw [h.keys _ key hkey]
        exact config.keys.correct _ _
    · exact h.failed r
  | coordinator houseRef =>
    obtain ⟨hsome, hgroup⟩ := hreports (by simp [hrole])
    obtain ⟨house, hhouse⟩ := Option.isSome_iff_exists.1 hsome
    rw [hhouse] at hgroup
    simp only [packageFor, hgroup, Option.some_or]
    split
    · split
      · rename_i signature group heq hverify
        cases heq
        exact hop.spawn ⟨hclaimed, house, by simp [keyOf, hrole, hgroup], hhouse, hverify⟩
      · exact hop.failed r
    · exact hop.failed r

/-- Recording a signature and answering with it. -/
theorem Sound.complete {signature : Bytes} {publicKey : Option Bytes}
    (hsha : Function.Injective config.prims.sha256) (h : Sound config s)
    (hk : Knows config s (.signed r signature publicKey)) (outside : Option Bytes) :
    Sound config (work config s outside (.signed r signature publicKey)) := by
  obtain ⟨⟨row, hrow, hkeyRef, hhash⟩, key, hkey, hreport, hverify⟩ := hk
  have hdone : Sound config { s with store := s.store.complete r.requestId signature } := by
    refine h.next (s.store.keeps_complete _ _) (fun _ _ => .inl) ?_ (fun _ h => .inl ⟨h, rfl⟩)
      fun _ => .inl
    intro id row' hrow' _
    simp only [Store.findRequest_complete] at hrow'
    split at hrow'
    · rename_i hid
      subst hid
      rw [hrow] at hrow'
      cases hrow'
      refine .inr ⟨signature, key, rfl, ?_, ?_⟩
      · rw [hkeyRef]; exact hkey
      · intro payload hpayload
        rw [hsha (hpayload.trans hhash)]
        exact hverify
    · exact .inl hrow'
  simp only [work, groupPublicKey, hreport]
  exact hdone.answer hkey hverify

/-- A replay answers with the row it claimed, or would have. -/
theorem Sound.replay (h : Sound config s) (hk : Knows config s (.matched r))
    (outside : Option Bytes) : Sound config (work config s outside (.matched r)) := by
  obtain ⟨⟨row, hrow, hkeyRef, hhash⟩, hreports⟩ := hk
  simp only [work]
  cases hrecorded : s.recorded config r with
  | none => exact h
  | some recorded =>
    obtain ⟨signature, publicKey⟩ := recorded
    have hfound : row.outcome = .succeeded ∧ row.signature = some signature ∧
        s.keyOf config r.keyRef = some publicKey := by
      unfold recorded at hrecorded
      cases hrole : config.role with
      | singleKey =>
        simp only [hrole, Store.completedSignature, hrow, Option.bind_some,
          Option.ite_none_right_eq_some, Option.bind_eq_some_iff, Option.map_eq_some_iff,
          Prod.mk.injEq] at hrecorded
        obtain ⟨hdone, _, hsig, key, hkey, rfl, rfl⟩ := hrecorded
        rw [hkeyRef] at hkey
        exact ⟨hdone, hsig, by simp [keyOf, hrole, hkey]⟩
      | coordinator houseRef =>
        simp only [hrole, Store.completedSignatureOnly, hrow, Option.bind_some, groupPublicKey,
          Option.ite_none_right_eq_some, Option.bind_eq_some_iff, Option.map_eq_some_iff,
          Prod.mk.injEq] at hrecorded
        obtain ⟨_, ⟨hdone, hsig⟩, _, hhouse, rfl, rfl⟩ := hrecorded
        obtain ⟨-, hgroup⟩ := hreports (by simp [hrole])
        exact ⟨hdone, hsig, by simp only [keyOf, hrole, hgroup, hhouse]⟩
    obtain ⟨hdone, hsig, hkey⟩ := hfound
    obtain ⟨_, _, hsig', hkey', hverify⟩ := h.rows _ row hrow hdone
    rw [hsig] at hsig'
    rw [hkeyRef, hkey] at hkey'
    cases hsig'
    cases hkey'
    exact h.answer hkey (hverify _ hhash.symm)

theorem Sound.work (hsha : Function.Injective config.prims.sha256)
    (h : Sound config s) (hk : Knows config s task) (outside : Option Bytes) :
    Sound config (work config s outside task) := by
  cases task with
  | won r => exact h.perform hk outside
  | signed r signature publicKey => exact h.complete hsha hk outside
  | lost r =>
    obtain ⟨⟨row, hrow, hagree⟩, hreports⟩ := hk
    simp only [Service.work, Store.claimedPayloadHash, hrow, Option.map_some, Option.some.injEq]
    split
    · rename_i hhash
      exact h.spawn ⟨⟨row, hrow, hagree hhash, hhash⟩, hreports⟩
    · exact h
  | matched r => exact h.replay hk outside

theorem Sound.step (hsha : Function.Injective config.prims.sha256)
    (h : Sound config s) (hfits : Fits config s label) (hstep : step config s label = some t) :
    Sound config t := by
  have hkeeps := keeps_step hstep
  cases label with
  | arrive r =>
    cases hstep
    exact h.arrive r hfits
  | work task outside =>
    obtain ⟨hmem, ⟨⟩⟩ := Option.ite_none_right_eq_some.1 hstep
    have hrest : Sound config { s with tasks := s.tasks.erase task } :=
      ⟨h.keys, h.rows, fun other hother => h.tasks other (mem_of_mem_erase hother), h.answers⟩
    exact hrest.work hsha (h.tasks task hmem) outside
  | restart =>
    cases hstep
    exact h.next hkeeps (fun _ _ => .inl) (fun _ _ h _ => .inl h) (fun _ h => by cases h) fun _ => .inl
  | ensureKey keyRef secret =>
    cases hstep
    refine h.next hkeeps ?_ ?_ (fun _ h => .inl ⟨h, rfl⟩) fun _ => .inl
    · intro k row hrow
      simp only [Store.storeKey] at hrow
      split at hrow
      · exact .inl hrow
      · simp only [Store.loadKey, find?_append, Option.or_eq_some_iff] at hrow
        obtain hold | ⟨-, hnew⟩ := hrow
        · exact .inl hold
        · obtain rfl := mem_singleton.1 (mem_of_find?_eq_some hnew)
          exact .inr rfl
    · intro id row hrow _
      simp only [Store.storeKey] at hrow
      split at hrow <;> exact .inl hrow
  | storeGroupKey keyRef group =>
    cases hstep
    refine h.next hkeeps ?_ ?_ (fun _ h => .inl ⟨h, rfl⟩) fun _ => .inl
    · intro k row hrow
      simp only [Store.storeGroupKey] at hrow
      split at hrow <;> exact .inl hrow
    · intro id row hrow _
      simp only [Store.storeGroupKey] at hrow
      split at hrow <;> exact .inl hrow

theorem Sound.initial : Sound config initial := by
  constructor <;> simp [Service.initial, Store.loadKey, Store.findRequest]

/-- **What `/v1/sign` answers.** Every request id costs at most one signing operation. In every run in
which a taken id comes back with the key it was taken for, and a coordinator is only asked for its
house key, every answer reports the key of its key reference and a signature by it. -/
theorem sign_answers {labels : List Label} (hsha : Function.Injective config.prims.sha256)
    (hrun : exec (step config) initial labels = some t) :
    (∀ id, t.operations.count id ≤ 1) ∧
    (Along (step config) (Fits config) initial labels → ∀ a ∈ t.answers, AnswerRight config t a) := by
  constructor
  · intro id
    have honce : Once t := exec_always (fun id => Nat.zero_le _) (fun _ _ _ h => h.step) hrun
    have hspent := honce id
    have htaken : t.taken id ≤ 1 := Bool.toNat_le _
    unfold spent at hspent
    omega
  · intro hfits
    exact (exec_inv Sound.initial (fun _ _ _ h hok => h.step hsha hok) hfits hrun).answers

/-! ## Answers under another key -/

section Runs

/-- A key that signs by writing itself before the message, and no approval key. -/
def plainConfig (role : Role) : Config where
  prims := ⟨id, fun _ => none, fun _ _ _ => false⟩
  keys :=
    { publicKey := id
      sign := fun secret message => secret ++ message
      verify := fun key message signature => signature = key ++ message
      correct := by simp }
  approvalKey := none
  role := role

def request (keyRef : KeyRef) : SignRequest := ⟨"withdrawal-1", keyRef, [5], hotProof⟩

/-- One request answered, then the same id and payload with key reference `again`. -/
def retriedWith (again : KeyRef) : List Label :=
  [.ensureKey "hot" [1], .ensureKey "cold" [2], .arrive (request "hot"),
    .work (.won (request "hot")) (some []), .work (.signed (request "hot") [1, 5] (some [1])) none,
    .arrive (request again), .work (.lost (request again)) none,
    .work (.matched (request again)) none]

/-- A coordinator with a house group and a user's, asked for `keyRef`. -/
def coordinated (keyRef : KeyRef) (group : Bytes) : List Label :=
  [.storeGroupKey "treasury" [9], .restart, .storeGroupKey "user:1" [7], .arrive (request keyRef),
    .work (.won (request keyRef)) (some (group ++ [5])),
    .work (.signed (request keyRef) (group ++ [5]) none) none]

instance (config : Config) (s : Service) (a : Answer) : Decidable (AnswerRight config s a) :=
  inferInstanceAs (Decidable (_ ∧ _))

/-- A single key: the retry that names another key gets the first key's answer. A coordinator: the
signature is by the user's group, the key reported is the house's. -/
theorem reported_wrong :
    (∃ t, exec (step (plainConfig .singleKey)) initial (retriedWith "cold") = some t ∧
      ∃ a ∈ t.answers, ¬AnswerRight (plainConfig .singleKey) t a) ∧
    (∃ t, exec (step (plainConfig (.coordinator "treasury"))) initial (coordinated "user:1" [7]) =
        some t ∧
      ∃ a ∈ t.answers, ¬AnswerRight (plainConfig (.coordinator "treasury")) t a ∧
        (plainConfig (.coordinator "treasury")).keys.verify a.publicKey a.request.payload
          a.signature = false) :=
  ⟨exec_reaches (by decide +kernel), exec_reaches (by decide +kernel)⟩

theorem sign_answers_retry :
    (∃ t, exec (step (plainConfig .singleKey)) initial (retriedWith "hot") = some t ∧
      t.answers.length = 2 ∧ t.operations = ["withdrawal-1"] ∧
      ∀ a ∈ t.answers, AnswerRight (plainConfig .singleKey) t a) ∧
    ∃ t, exec (step (plainConfig (.coordinator "treasury"))) initial (coordinated "treasury" [9]) =
        some t ∧
      t.answers.length = 1 ∧
      ∀ a ∈ t.answers, AnswerRight (plainConfig (.coordinator "treasury")) t a := by
  constructor
  · obtain ⟨t, ht, hlength, hops⟩ : ∃ t, exec (step (plainConfig .singleKey)) initial
        (retriedWith "hot") = some t ∧ t.answers.length = 2 ∧ t.operations = ["withdrawal-1"] :=
      exec_reaches (by decide +kernel)
    exact ⟨t, ht, hlength, hops,
      (sign_answers Function.injective_id ht).2 (by decide +kernel)⟩
  · obtain ⟨t, ht, hlength⟩ : ∃ t, exec (step (plainConfig (.coordinator "treasury"))) initial
        (coordinated "treasury" [9]) = some t ∧ t.answers.length = 1 :=
      exec_reaches (by decide +kernel)
    exact ⟨t, ht, hlength, (sign_answers Function.injective_id ht).2 (by decide +kernel)⟩

end Runs

end Service

end AtlasCex.Mpc
