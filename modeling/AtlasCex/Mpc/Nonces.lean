import AtlasCex.Mpc.Signing
/-!
# The nonce ledger of a FROST participant

| here | there |
| --- | --- |
| `NonceRow`, `recordNonce`, `consumeNonce` | `frost_nonces`, `mpc/src/store.rs:494-535` |
| `KeyPackage`, `loadShare` | a row of `frost_shares`, opened (`mpc/src/frost.rs:76-102`) |
| `Frost`                | `frost::round1::commit`, `frost::round2::sign` (`frost-ed25519`) |
| `ShareRequest`, `Codec`, `sharePackage` | `http::frost_share` up to `participant.sign` (`mpc/src/http.rs:373-409`) |
| `Task`, `work`         | `Participant::commit`, `sign` (`mpc/src/frost.rs:127-186`), one store statement a step |
| `Label`                | any request, in any order, of a coordinator with valid credentials |

Nonce pairs are numbered in the order the participant generates them. A handler that fails between
two steps is a task that is not taken up again; `restart` drops all of them. A share can be stored for
a key at any time, or replaced.
-/
namespace AtlasCex.Mpc.Nonces

open List
open Lib (refuse require)

abbrev NonceId := String
abbrev Identifier := Bytes
abbrev Commitments := Bytes

/-- A nonce pair: the how manieth one generated here. -/
abbrev NoncePair := Nat

/-- `MIN_SIGNERS`. -/
def minSigners : Nat := 3

structure KeyPackage where
  identifier : Identifier
  signingShare : Bytes
deriving DecidableEq, Repr

structure SigningPackage where
  commitments : List (Identifier × Commitments)
  message : Bytes
deriving DecidableEq, Repr

def SigningPackage.commitment (package : SigningPackage) (identifier : Identifier) :
    Option Commitments :=
  (package.commitments.find? (·.1 = identifier)).map (·.2)

/-- The library. A share comes only out of a package that carries, for this signer, the commitments
of the nonces it is computed with. -/
structure Frost where
  commitmentsOf : NoncePair → Commitments
  round2 : SigningPackage → NoncePair → KeyPackage → Option Bytes
  round2_commitment : ∀ package nonces key share, round2 package nonces key = some share →
    package.commitment key.identifier = some (commitmentsOf nonces)

/-- The texts of a request, decoded. -/
structure Codec where
  hex : String → Option Bytes
  identifier : String → Except MpcError Identifier
  commitments : String → Except MpcError Commitments

structure Config where
  prims : Primitives Bytes
  approvalKey : Option Bytes
  codec : Codec
  frost : Frost

structure ShareRequest where
  nonceId : NonceId
  keyRef : KeyRef
  payload : String
  commitments : List (String × String)
  authorization : AuthorizationProof
deriving DecidableEq, Repr

/-- `BTreeMap::insert`; the order of the entries is of no account. -/
def insertCommitments (map : List (Identifier × Commitments)) (identifier : Identifier)
    (commitments : Commitments) : List (Identifier × Commitments) :=
  (identifier, commitments) :: map.filter (·.1 ≠ identifier)

def decodeCommitments (codec : Codec) :
    List (Identifier × Commitments) → List (String × String) →
      Except MpcError (List (Identifier × Commitments))
  | map, [] => pure map
  | map, (name, encoded) :: rest => do
    let identifier ← codec.identifier name
    let commitments ← codec.commitments encoded
    decodeCommitments codec (insertCommitments map identifier commitments) rest

/-- What a share request is checked for before the nonce is touched. -/
def sharePackage (config : Config) (request : ShareRequest) : Except MpcError SigningPackage := do
  let payload ← require (config.codec.hex request.payload) (.badRequest "payload_not_hex")
  refuse (payload = []) (.badRequest "payload_empty")
  validateAuthorization config.prims config.approvalKey request.authorization
    (config.prims.sha256 payload)
  let commitments ← decodeCommitments config.codec [] request.commitments
  refuse (commitments.length < minSigners) (.badRequest "package_below_threshold")
  pure ⟨commitments, payload⟩

/-! ## The ledger -/

structure NonceRow where
  nonceId : NonceId
  keyRef : KeyRef
  nonces : NoncePair
  commitments : Commitments
  used : Bool
deriving DecidableEq, Repr

/-- A share that was computed, with what went into it. -/
structure Computed where
  nonces : NoncePair
  package : SigningPackage
  key : KeyPackage
  authorization : AuthorizationProof
deriving DecidableEq, Repr

inductive Task where
  /-- The share is loaded: generate nonces. -/
  | generate (nonceId : NonceId) (keyRef : KeyRef)
  | record (nonceId : NonceId) (keyRef : KeyRef) (nonces : NoncePair)
  | reply (nonces : NoncePair)
  /-- The request is checked: take the nonces. -/
  | consume (request : ShareRequest) (package : SigningPackage) (key : KeyPackage)
  | sign (request : ShareRequest) (package : SigningPackage) (key : KeyPackage) (nonces : NoncePair)
deriving DecidableEq, Repr

structure Participant where
  rows : List NonceRow
  shares : KeyRef → Option KeyPackage
  generated : Nat
  tasks : List Task
  /-- The nonces whose commitments were returned. -/
  published : List NoncePair
  computed : List Computed

inductive Label where
  | commit (nonceId : NonceId) (keyRef : KeyRef)
  | share (request : ShareRequest)
  | work (task : Task)
  | storeShare (keyRef : KeyRef) (key : KeyPackage)
  | restart

namespace Participant

/-- Insert if absent, and whether a row went in. -/
def recordNonce (s : Participant) (row : NonceRow) : Bool × Participant :=
  if s.rows.any (·.nonceId = row.nonceId) then (false, s)
  else (true, { s with rows := s.rows ++ [row] })

def markUsed (nonceId : NonceId) (rows : List NonceRow) : List NonceRow :=
  rows.map fun row => if row.nonceId = nonceId ∧ row.used = false then { row with used := true } else row

/-- The conditional update, and the read when it changed a row. -/
def consumeNonce (s : Participant) (nonceId : NonceId) : Option (NoncePair × Participant) :=
  if s.rows.any fun row => row.nonceId = nonceId ∧ row.used = false then
    let rows := markUsed nonceId s.rows
    (rows.find? (·.nonceId = nonceId)).map fun row => (row.nonces, { s with rows := rows })
  else none

def spawn (s : Participant) (task : Task) : Participant := { s with tasks := task :: s.tasks }

def work (config : Config) (s : Participant) : Task → Participant
  | .generate nonceId keyRef =>
    { s with generated := s.generated + 1 }.spawn (.record nonceId keyRef s.generated)
  | .record nonceId keyRef nonces =>
    match s.recordNonce ⟨nonceId, keyRef, nonces, config.frost.commitmentsOf nonces, false⟩ with
    | (true, s) => s.spawn (.reply nonces)
    | (false, s) => s
  | .reply nonces => { s with published := nonces :: s.published }
  | .consume request package key =>
    match s.consumeNonce request.nonceId with
    | some (nonces, s) => s.spawn (.sign request package key nonces)
    | none => s
  | .sign request package key nonces =>
    match config.frost.round2 package nonces key with
    | some _ => { s with computed := ⟨nonces, package, key, request.authorization⟩ :: s.computed }
    | none => s

def step (config : Config) (s : Participant) : Label → Option Participant
  | .commit nonceId keyRef => (s.shares keyRef).map fun _ => s.spawn (.generate nonceId keyRef)
  | .share request =>
    (s.shares request.keyRef).bind fun key =>
      match sharePackage config request with
      | .ok package => some (s.spawn (.consume request package key))
      | .error _ => none
  | .work task =>
    if task ∈ s.tasks then some (work config { s with tasks := s.tasks.erase task } task) else none
  | .storeShare keyRef key =>
    some { s with shares := fun other => if other = keyRef then some key else s.shares other }
  | .restart => some { s with tasks := [] }

def initial : Participant := ⟨[], fun _ => none, 0, [], [], []⟩

/-! ## Nonces in hand -/

/-- The nonces a task can still use. -/
def held : Task → Option NoncePair
  | .record _ _ nonces => some nonces
  | .sign _ _ _ nonces => some nonces
  | _ => none

def unused (rows : List NonceRow) : List NoncePair :=
  (rows.filter (·.used = false)).map (·.nonces)

/-- Every use a nonce pair has had or can still come to. -/
def uses (s : Participant) : List NoncePair :=
  s.tasks.filterMap held ++ unused s.rows ++ s.computed.map (·.nonces)

/-- No nonce pair has two uses, counting the one the running task has in hand. -/
structure Single (hand : Option NoncePair) (s : Participant) : Prop where
  once : ∀ n, hand.toList.count n + s.uses.count n ≤ 1
  generated : ∀ n, s.generated ≤ n → hand.toList.count n + s.uses.count n = 0
  ids : (s.rows.map (·.nonceId)).Nodup

variable {config : Config} {s t : Participant} {hand : Option NoncePair}

/-- From one state to the next: no nonce gains a use. -/
theorem Single.of_count (h : Single hand s) (hids : (t.rows.map (·.nonceId)).Nodup)
    (hgen : t.generated = s.generated)
    (hcount : ∀ n, t.uses.count n ≤ hand.toList.count n + s.uses.count n) : Single none t where
  once n := by
    have := h.once n
    have := hcount n
    simp only [Option.toList_none, count_nil]
    omega
  generated n hn := by
    have := h.generated n (hgen ▸ hn)
    have := hcount n
    simp only [Option.toList_none, count_nil]
    omega
  ids := hids

theorem recordNonce_cases (s : Participant) (row : NonceRow) :
    s.recordNonce row = (false, s) ∨
    (∀ other ∈ s.rows, other.nonceId ≠ row.nonceId) ∧
      s.recordNonce row = (true, { s with rows := s.rows ++ [row] }) := by
  unfold recordNonce
  split
  · exact .inl rfl
  · rename_i hany
    exact .inr ⟨by simpa using hany, rfl⟩

variable {nonceId : NonceId}

/-- Taking a nonce touches the rows and nothing else. -/
theorem consumeNonce_frame {nonces : NoncePair}
    (h : s.consumeNonce nonceId = some (nonces, t)) : ∃ rows, t = { s with rows := rows } := by
  unfold consumeNonce at h
  split at h
  · obtain ⟨row, -, heq⟩ := Option.map_eq_some_iff.1 h
    cases heq
    exact ⟨_, rfl⟩
  · cases h

theorem markUsed_of_ne {rows : List NonceRow}
    (h : ∀ row ∈ rows, row.nonceId ≠ nonceId) : markUsed nonceId rows = rows := by
  unfold markUsed
  conv_rhs => rw [← map_id rows]
  exact map_congr_left fun row hrow => if_neg fun hc => h row hrow hc.1

/-- What taking a nonce does: the one row of the id, unused before and used after. -/
theorem consumeNonce_some {nonces : NoncePair}
    (hids : (s.rows.map (·.nonceId)).Nodup) (h : s.consumeNonce nonceId = some (nonces, t)) :
    ∃ before row after, s.rows = before ++ row :: after ∧ row.nonces = nonces ∧ row.used = false ∧
      t = { s with rows := before ++ { row with used := true } :: after } := by
  unfold consumeNonce at h
  split at h
  case isFalse => cases h
  case isTrue hany =>
    simp only [any_eq_true, decide_eq_true_eq] at hany
    obtain ⟨row, hmem, hid, hunused⟩ := hany
    obtain ⟨before, after, hrows⟩ := append_of_mem hmem
    -- The id is a key, so no other row has it.
    rw [hrows, map_append, map_cons] at hids
    obtain ⟨-, hafter, hbefore⟩ := nodup_append.1 hids
    have hA : ∀ other ∈ before, other.nonceId ≠ nonceId := fun other hother =>
      hid ▸ hbefore _ (mem_map_of_mem hother) _ mem_cons_self
    have hB : ∀ other ∈ after, other.nonceId ≠ nonceId := fun other hother heq =>
      (nodup_cons.1 hafter).1 (hid ▸ heq ▸ mem_map_of_mem hother)
    have hmark : markUsed nonceId s.rows = before ++ { row with used := true } :: after := by
      rw [hrows]
      calc markUsed nonceId (before ++ row :: after)
          = markUsed nonceId before ++ { row with used := true } :: markUsed nonceId after := by
            simp [markUsed, hid, hunused]
        _ = _ := by rw [markUsed_of_ne hA, markUsed_of_ne hB]
    have hfind : (before ++ { row with used := true } :: after).find? (·.nonceId = nonceId) =
        some { row with used := true } := by
      rw [find?_append, find?_eq_none.2 (by simpa using hA), Option.none_or,
        find?_cons_of_pos (by simpa using hid)]
    simp only [hmark, hfind, Option.map_some, Option.some.injEq, Prod.mk.injEq] at h
    obtain ⟨rfl, rfl⟩ := h
    exact ⟨before, row, after, hrows, rfl, hunused, rfl⟩

variable {task : Task}

/-- A task is taken up: what it holds is in hand. -/
theorem Single.take (h : Single none s) (hmem : task ∈ s.tasks) :
    Single (held task) { s with tasks := s.tasks.erase task } := by
  have hcount : ∀ n, (held task).toList.count n +
      ({ s with tasks := s.tasks.erase task } : Participant).uses.count n = s.uses.count n := by
    intro n
    have hperm := (perm_cons_erase hmem).filterMap held
    simp only [uses, count_append, hperm.count_eq]
    cases hh : held task <;> simp [hh, count_cons]
    omega
  refine ⟨fun n => ?_, fun n hn => ?_, h.ids⟩
  · have := h.once n
    simp only [Option.toList_none, count_nil] at this
    rw [hcount]
    omega
  · have := h.generated n hn
    simp only [Option.toList_none, count_nil] at this
    rw [hcount]
    omega

/-- Each task takes its nonces along, or drops them. -/
theorem Single.work (h : Single (held task) s) : Single none (work config s task) := by
  cases task with
  | generate nonceId keyRef =>
    -- New nonces: nothing has used them.
    have hcount : ∀ n, (Participant.work config s (.generate nonceId keyRef)).uses.count n =
        [s.generated].count n + s.uses.count n := by
      intro n
      simp [Participant.work, spawn, uses, held, count_cons, count_append]
      omega
    refine ⟨fun n => ?_, fun n hn => ?_, h.ids⟩
    · rw [hcount, count_singleton]
      have hold := h.once n
      have hfresh := h.generated n
      by_cases hn : s.generated = n
      · have := hfresh hn.le
        simp [hn]
        omega
      · simp only [held, Option.toList_none, count_nil, beq_iff_eq, hn, if_false] at hold ⊢
        omega
    · rw [hcount, count_singleton]
      change s.generated + 1 ≤ n at hn
      have hold := h.generated n (by omega)
      have hne : ¬s.generated = n := by omega
      simp only [held, Option.toList_none, count_nil, beq_iff_eq, hne, if_false] at hold ⊢
      omega
  | record nonceId keyRef nonces =>
    unfold Participant.work
    obtain hrow | ⟨hfree, hrow⟩ := s.recordNonce_cases
      ⟨nonceId, keyRef, nonces, config.frost.commitmentsOf nonces, false⟩
    · simp only [hrow]
      exact h.of_count h.ids rfl fun n => Nat.le_add_left _ _
    · simp only [hrow]
      refine h.of_count ?_ rfl fun n => ?_
      · simpa [spawn, nodup_append, h.ids] using hfree
      · simp [uses, spawn, unused, held, filterMap_cons, count_append, count_cons]
        omega
  | reply nonces => exact h.of_count h.ids rfl fun n => Nat.le_add_left _ _
  | consume request package key =>
    simp only [Participant.work]
    split
    · rename_i nonces t hconsume
      obtain ⟨before, row, after, hrows, rfl, hunused, rfl⟩ := consumeNonce_some h.ids hconsume
      refine h.of_count ?_ rfl fun n => ?_
      · simpa [spawn, hrows] using h.ids
      · simp [uses, spawn, unused, hrows, held, hunused, count_append, count_cons]
        omega
    · exact h.of_count h.ids rfl fun n => Nat.le_add_left _ _
  | sign request package key nonces =>
    simp only [Participant.work]
    split
    · refine h.of_count h.ids rfl fun n => ?_
      simp [uses, held, count_append, count_cons]
      omega
    · exact h.of_count h.ids rfl fun n => Nat.le_add_left _ _

variable {label : Label}

theorem Single.step (h : Single none s) (hstep : step config s label = some t) :
    Single none t := by
  have hsame : ∀ n, s.uses.count n ≤ (none : Option NoncePair).toList.count n + s.uses.count n :=
    fun n => Nat.le_add_left _ _
  cases label with
  | commit nonceId keyRef =>
    obtain ⟨-, -, rfl⟩ := Option.map_eq_some_iff.1 hstep
    exact h.of_count h.ids rfl hsame
  | share request =>
    obtain ⟨key, -, hstep⟩ := Option.bind_eq_some_iff.1 hstep
    split at hstep
    · cases hstep
      exact h.of_count h.ids rfl hsame
    · cases hstep
  | work task =>
    obtain ⟨hmem, ⟨⟩⟩ := Option.ite_none_right_eq_some.1 hstep
    exact (h.take hmem).work
  | storeShare keyRef key =>
    cases hstep
    exact h.of_count h.ids rfl hsame
  | restart =>
    cases hstep
    refine h.of_count h.ids rfl fun n => ?_
    simp only [uses, filterMap_nil, nil_append, count_append]
    omega

/-! ## What a share is computed for -/

/-- A package that may be signed: three signers or more, under three different identifiers, over a
payload an authorization was verified for. -/
structure Checked (config : Config) (package : SigningPackage) (authorization : AuthorizationProof) :
    Prop where
  threshold : minSigners ≤ package.commitments.length
  distinct : (package.commitments.map (·.1)).Nodup
  authorized : validateAuthorization config.prims config.approvalKey authorization
    (config.prims.sha256 package.message) = .ok ()

theorem decodeCommitments_nodup {codec : Codec} :
    ∀ {wire : List (String × String)} {map decoded : List (Identifier × Commitments)},
      (map.map (·.1)).Nodup → decodeCommitments codec map wire = .ok decoded →
      (decoded.map (·.1)).Nodup
  | [], _, _, hmap, h => by
    cases h
    exact hmap
  | (name, encoded) :: rest, map, decoded, hmap, h => by
    simp only [decodeCommitments, Lib.bind_eq_ok] at h
    obtain ⟨identifier, -, commitments, -, hrest⟩ := h
    refine decodeCommitments_nodup ?_ hrest
    rw [insertCommitments, map_cons, nodup_cons]
    refine ⟨by simp, hmap.sublist (filter_sublist.map _)⟩

theorem sharePackage_checked {request : ShareRequest} {package : SigningPackage}
    (h : sharePackage config request = .ok package) :
    Checked config package request.authorization := by
  simp only [sharePackage, Lib.bind_eq_ok, Lib.require_eq_ok, Lib.refuse_eq_ok,
    Lib.pure_eq_ok] at h
  obtain ⟨payload, -, -, -, _, hauth, commitments, hdecode, -, hcount, rfl⟩ := h
  have hnil : (([] : List (Identifier × Commitments)).map (·.1)).Nodup := nodup_nil
  exact ⟨not_lt.1 hcount, decodeCommitments_nodup hnil hdecode, hauth⟩

/-- The package a task is to sign, with its authorization and key. -/
def asks : Task → Option (AuthorizationProof × SigningPackage × KeyPackage)
  | .consume request package key => some (request.authorization, package, key)
  | .sign request package key _ => some (request.authorization, package, key)
  | _ => none

/-- What holds of a package when its request is accepted goes along to the share; with it, what the
library checked. -/
structure Carried (config : Config) (Q : AuthorizationProof → SigningPackage → KeyPackage → Prop)
    (s : Participant) : Prop where
  tasks : ∀ task ∈ s.tasks, ∀ a package key, asks task = some (a, package, key) → Q a package key
  computed : ∀ c ∈ s.computed, Q c.authorization c.package c.key ∧
    c.package.commitment c.key.identifier = some (config.frost.commitmentsOf c.nonces)

variable {Q R : AuthorizationProof → SigningPackage → KeyPackage → Prop}

theorem Carried.mono (h : Carried config Q s) (hQR : ∀ a package key, Q a package key → R a package key) :
    Carried config R s :=
  ⟨fun task hmem a package key hasks => hQR _ _ _ (h.tasks task hmem a package key hasks),
    fun c hmem => ⟨hQR _ _ _ (h.computed c hmem).1, (h.computed c hmem).2⟩⟩

theorem Carried.spawn (h : Carried config Q s)
    (htask : ∀ a package key, asks task = some (a, package, key) → Q a package key) :
    Carried config Q (s.spawn task) := by
  refine ⟨fun other hmem => ?_, h.computed⟩
  obtain rfl | hmem := mem_cons.1 hmem
  · exact htask
  · exact h.tasks other hmem

theorem Carried.work (h : Carried config Q s)
    (htask : ∀ a package key, asks task = some (a, package, key) → Q a package key) :
    Carried config Q (work config s task) := by
  cases task with
  | generate nonceId keyRef =>
    exact Carried.spawn (s := { s with generated := s.generated + 1 }) ⟨h.tasks, h.computed⟩ (by nofun)
  | record nonceId keyRef nonces =>
    unfold Participant.work
    obtain hrow | ⟨-, hrow⟩ := s.recordNonce_cases
      ⟨nonceId, keyRef, nonces, config.frost.commitmentsOf nonces, false⟩
    · simp only [hrow]
      exact h
    · simp only [hrow]
      exact Carried.spawn ⟨h.tasks, h.computed⟩ (by nofun)
  | reply nonces => exact ⟨h.tasks, h.computed⟩
  | consume request package key =>
    simp only [Participant.work]
    split
    · rename_i nonces t hconsume
      obtain ⟨rows, rfl⟩ := consumeNonce_frame hconsume
      exact Carried.spawn ⟨h.tasks, h.computed⟩ htask
    · exact h
  | sign request package key nonces =>
    simp only [Participant.work]
    split
    · rename_i share hround
      refine ⟨h.tasks, fun c hmem => ?_⟩
      obtain rfl | hmem := mem_cons.1 hmem
      · exact ⟨htask _ _ _ rfl, config.frost.round2_commitment _ _ _ _ hround⟩
      · exact h.computed c hmem
    · exact h

theorem Carried.step (h : Carried config Q s)
    (hshare : ∀ request key package, label = .share request → s.shares request.keyRef = some key →
      sharePackage config request = .ok package → Q request.authorization package key)
    (hstep : step config s label = some t) : Carried config Q t := by
  cases label with
  | commit nonceId keyRef =>
    obtain ⟨-, -, rfl⟩ := Option.map_eq_some_iff.1 hstep
    exact h.spawn (by nofun)
  | share request =>
    obtain ⟨key, hkey, hstep⟩ := Option.bind_eq_some_iff.1 hstep
    split at hstep
    · rename_i package hpackage
      cases hstep
      refine h.spawn fun a p k hasks => ?_
      cases hasks
      exact hshare request key package rfl hkey hpackage
    · cases hstep
  | work task =>
    obtain ⟨hmem, ⟨⟩⟩ := Option.ite_none_right_eq_some.1 hstep
    have hrest : Carried config Q { s with tasks := s.tasks.erase task } :=
      ⟨fun other hother => h.tasks other (mem_of_mem_erase hother), h.computed⟩
    exact hrest.work (h.tasks task hmem)
  | storeShare keyRef key =>
    cases hstep
    exact ⟨h.tasks, h.computed⟩
  | restart =>
    cases hstep
    exact ⟨by simp, h.computed⟩

theorem Carried.initial : Carried config Q initial :=
  ⟨by simp [Participant.initial], by simp [Participant.initial]⟩

/-! ## Published commitments -/

/-- The commitments of a package for one signer, if they are of nonces generated here, are published
ones: they cannot be known before. -/
def Known (frost : Frost) (published : List NoncePair) (package : SigningPackage)
    (key : KeyPackage) : Prop :=
  ∀ n, package.commitment key.identifier = some (frost.commitmentsOf n) → n ∈ published

/-- A coordinator that guesses no commitments. -/
def Unguessed (config : Config) (s : Participant) : Label → Prop
  | .share request => ∀ key package, s.shares request.keyRef = some key →
      sharePackage config request = .ok package → Known config.frost s.published package key
  | _ => True

theorem published_work (task : Task) : s.published ⊆ (work config s task).published := by
  cases task with
  | generate nonceId keyRef => exact List.Subset.refl _
  | record nonceId keyRef nonces =>
    unfold work
    obtain hrow | ⟨-, hrow⟩ := s.recordNonce_cases
      ⟨nonceId, keyRef, nonces, config.frost.commitmentsOf nonces, false⟩
    · simp only [hrow]
      exact List.Subset.refl _
    · simp only [hrow]
      exact List.Subset.refl _
  | reply nonces => exact subset_cons_self _ _
  | consume request package key =>
    simp only [work]
    split
    · rename_i nonces t hconsume
      obtain ⟨rows, rfl⟩ := consumeNonce_frame hconsume
      exact List.Subset.refl _
    · exact List.Subset.refl _
  | sign request package key nonces =>
    simp only [work]
    split <;> exact List.Subset.refl _

theorem published_step (hstep : step config s label = some t) :
    s.published ⊆ t.published := by
  cases label with
  | commit nonceId keyRef =>
    obtain ⟨-, -, rfl⟩ := Option.map_eq_some_iff.1 hstep
    exact List.Subset.refl _
  | share request =>
    obtain ⟨key, -, hstep⟩ := Option.bind_eq_some_iff.1 hstep
    split at hstep
    · cases hstep
      exact List.Subset.refl _
    · cases hstep
  | work task =>
    obtain ⟨-, ⟨⟩⟩ := Option.ite_none_right_eq_some.1 hstep
    exact published_work (s := { s with tasks := s.tasks.erase task }) task
  | storeShare keyRef key =>
    cases hstep
    exact List.Subset.refl _
  | restart =>
    cases hstep
    exact List.Subset.refl _

/-- Every package on its way, and every one signed, is of published commitments. -/
def PublishedOnly (config : Config) (s : Participant) : Prop :=
  Carried config (fun _ => Known config.frost s.published) s

theorem PublishedOnly.step (h : PublishedOnly config s)
    (hok : Unguessed config s label) (hstep : step config s label = some t) :
    PublishedOnly config t := by
  have hsub := published_step hstep
  refine (Carried.step h ?_ hstep).mono fun _ package key hknown n hn => hsub (hknown n hn)
  rintro request key package rfl hkey hpackage
  exact hok key package hkey hpackage

/-- **The nonce ledger.** Whatever a coordinator sends and wherever the process dies, a nonce pair goes
into at most one share. A share is computed with the nonces whose commitments the package carries for
this signer, for a package of at least three signers, over a payload an authorization was verified for.
Unless the coordinator guessed them, those commitments had been published. -/
theorem nonce_ledger {labels : List Label}
    (hrun : Lib.exec (step config) initial labels = some t) :
    (∀ n, (t.computed.map (·.nonces)).count n ≤ 1) ∧
    (∀ c ∈ t.computed, c.nonces < t.generated ∧
      c.package.commitment c.key.identifier = some (config.frost.commitmentsOf c.nonces) ∧
      Checked config c.package c.authorization) ∧
    (Lib.Along (step config) (Unguessed config) initial labels →
      ∀ c ∈ t.computed, c.nonces ∈ t.published) := by
  have hsingle : Single none t := by
    refine Lib.exec_always (s := initial) ⟨?_, ?_, nodup_nil⟩ (fun _ _ _ h => h.step) hrun
    all_goals simp [initial, uses, unused]
  have hcarried : Carried config (fun a package _ => Checked config package a) t :=
    Lib.exec_always Carried.initial
      (fun _ _ _ h => h.step fun _ _ _ _ _ hpackage => sharePackage_checked hpackage) hrun
  refine ⟨fun n => ?_, fun c hc => ?_, fun hok c hc => ?_⟩
  · have := hsingle.once n
    simp only [uses, count_append] at this
    omega
  · obtain ⟨hchecked, hcommitment⟩ := hcarried.computed c hc
    refine ⟨?_, hcommitment, hchecked⟩
    by_contra hle
    have hnone := hsingle.generated c.nonces (not_lt.1 hle)
    have hmem : c.nonces ∈ t.computed.map (·.nonces) := mem_map_of_mem hc
    have hpos := count_pos_iff.2 hmem
    simp only [uses, count_append] at hnone
    omega
  · have hnone : PublishedOnly config initial := Carried.initial
    have hknown := Lib.exec_inv hnone (fun _ _ _ h => PublishedOnly.step h) hok hrun
    obtain ⟨hk, hcommitment⟩ := hknown.computed c hc
    exact hk c.nonces hcommitment

/-- A library whose shares are empty, and texts that are their own bytes. -/
def sampleConfig : Config where
  prims := ⟨id, fun _ => none, fun _ _ _ => false⟩
  approvalKey := none
  codec := ⟨fun text => some text.toByteArray.data.toList, fun text => .ok text.toByteArray.data.toList,
    fun text => .ok text.toByteArray.data.toList⟩
  frost :=
    { commitmentsOf := fun n => [UInt8.ofNat (n + 97)]
      round2 := fun package n key =>
        if package.commitment key.identifier = some [UInt8.ofNat (n + 97)] then some [] else none
      round2_commitment := fun _ _ _ _ h => (Option.ite_none_right_eq_some.1 h).1 }

def sampleKey : KeyPackage := ⟨[49], [1]⟩

/-- Signer `1` committed to `a`, the first nonces here. -/
def sampleRequest : ShareRequest :=
  ⟨"r:1", "treasury", "m", [("1", "a"), ("2", "x"), ("3", "y")], hotProof⟩

def samplePackage : SigningPackage := ⟨[([51], [121]), ([50], [120]), ([49], [97])], [109]⟩

/-- One round, and the share asked for once more. -/
def sampleRound : List Label :=
  [.storeShare "treasury" sampleKey, .commit "r:1" "treasury",
    .work (.generate "r:1" "treasury"), .work (.record "r:1" "treasury" 0), .work (.reply 0),
    .share sampleRequest, .share sampleRequest,
    .work (.consume sampleRequest samplePackage sampleKey),
    .work (.consume sampleRequest samplePackage sampleKey),
    .work (.sign sampleRequest samplePackage sampleKey 0)]

theorem nonce_ledger_round :
    ∃ t, Lib.exec (step sampleConfig) initial sampleRound = some t ∧
      t.computed = [⟨0, samplePackage, sampleKey, hotProof⟩] ∧
      (t.computed.map (·.nonces)).count 0 ≤ 1 := by
  obtain ⟨t, ht, hcomputed⟩ : ∃ t, Lib.exec (step sampleConfig) initial sampleRound = some t ∧
      t.computed = [⟨0, samplePackage, sampleKey, hotProof⟩] := Lib.exec_reaches (by decide +kernel)
  exact ⟨t, ht, hcomputed, (nonce_ledger ht).1 0⟩

end Participant

end AtlasCex.Mpc.Nonces
