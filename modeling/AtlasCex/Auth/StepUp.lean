import AtlasCex.Auth.Ceremonies
import Mathlib.Data.List.Nodup
import Mathlib.Data.List.Count
/-!
# What a step-up rests on

Three ceremonies share one store, and the finish of a step-up takes any ceremony that is not a
registration: whether user verification is required it reads from the ceremony, and the ceremony's
user is compared with nobody.

`step_up_sound`: as long as every ceremony a step-up consumes is a step-up of the session's own user,
each stamp rests on a challenge issued for that by the step-up's begin, consumed by that call and by
no other, and on an assertion verified with user verification required. `login_steps_up` is a run of
the code as it is: the ceremony of a login, answered without user verification, steps a session up;
and so does a step-up that another user began.
-/
namespace AtlasCex.Auth
open List

variable {Response : Type}

/-- The ceremony a call has consumed, and for whom. -/
def Call.claims : Call Response → Option (Flow × CeremonyId × CeremonyRecord)
  | .lookup flow id ceremony _ | .belongs flow id ceremony _ _ | .verify flow id ceremony _ _ =>
    some (flow, id, ceremony)
  | .reread flow assertion | .recordUse flow assertion _ | .succeed flow assertion =>
    some (flow, assertion.ceremonyId, assertion.ceremony)
  | .findUser assertion _ => some (.login, assertion.ceremonyId, assertion.ceremony)
  | _ => none

def Call.holds (call : Call Response) : Option CeremonyId := call.claims.map (·.2.1)

/-- The assertion a call has verified. -/
def Call.assertion : Call Response → Option (Assertion Response)
  | .reread _ assertion | .findUser assertion _ | .recordUse _ assertion _
  | .succeed _ assertion => some assertion
  | _ => none

/-- The library verified it, requiring of the user what the ceremony's kind asks for. -/
structure Assertion.Verified (library : Library Response) (a : Assertion Response) : Prop where
  required : a.requireUserVerification = (a.ceremony.kind = .stepup)
  verified : library.verifyAuthentication a.response a.ceremony.challenge a.stored.publicKey
    a.stored.signCount a.requireUserVerification = some a.newSignCount

namespace State

variable {library : Library Response} {s s' : State Response} {call : Call Response}
  {next : Option (Call Response)} {label : Label Response} {id : CeremonyId}

/-- A step-up of the session's user, begun by that user. -/
structure Own (s : State Response) (session : Session) (id : CeremonyId)
    (ceremony : CeremonyRecord) : Prop where
  issued : ⟨some session.userId, id, ceremony⟩ ∈ s.issued
  kind : ceremony.kind = .stepup

structure CallOk (library : Library Response) (s : State Response) (call : Call Response) :
    Prop where
  own : ∀ session id ceremony, call.claims = some (.stepUp session, id, ceremony) →
    s.Own session id ceremony
  verified : ∀ a, call.assertion = some a → a.Verified library

structure StampOk (library : Library Response) (s : State Response) (stamp : Stamp Response) :
    Prop where
  own : s.Own stamp.session stamp.assertion.ceremonyId stamp.assertion.ceremony
  verified : stamp.assertion.Verified library

/-- How many calls and stamps rest on the ceremony. -/
def uses (calls : List (Call Response)) (stamps : List (Stamp Response)) (id : CeremonyId) : Nat :=
  calls.countP (·.holds = some id) + stamps.countP (·.assertion.ceremonyId = id)

structure Sound (library : Library Response) (s : State Response) : Prop where
  distinct : (s.issued.map (·.id)).Nodup
  challenges : (s.issued.map (·.record.challenge)).Nodup
  stepUps : ∀ issue ∈ s.issued, issue.record.kind = .stepup →
    issue.steppingUp = issue.record.userId
  stored : ∀ p ∈ s.store, ∃ who, ⟨who, p.1, p.2⟩ ∈ s.issued
  once : ∀ id, (s.store.map Prod.fst).count id + s.consumed.count id ≤
    (s.issued.map (·.id)).count id
  uses : ∀ id, uses s.calls s.stamps id ≤ s.consumed.count id
  calls : ∀ call ∈ s.calls, s.CallOk library call
  stamps : ∀ stamp ∈ s.stamps, s.StampOk library stamp

/-- A step-up is answered with a step-up ceremony of its own session's user. -/
def OwnCeremony (s : State Response) : Label Response → Bool
  | .work (.consume (.stepUp session) id _) _ =>
    (s.findCeremony id).all fun ceremony =>
      ceremony.kind = .stepup && ceremony.userId = some session.userId
  | _ => true

theorem Own.mono {session : Session} {ceremony : CeremonyRecord} (h : s.Own session id ceremony)
    (hissued : s.issued ⊆ s'.issued) : s'.Own session id ceremony :=
  ⟨hissued h.issued, h.kind⟩

theorem CallOk.mono (h : s.CallOk library call) (hissued : s.issued ⊆ s'.issued) :
    s'.CallOk library call :=
  ⟨fun session id ceremony hc => (h.own session id ceremony hc).mono hissued, h.verified⟩

theorem StampOk.mono {stamp : Stamp Response} (h : s.StampOk library stamp)
    (hissued : s.issued ⊆ s'.issued) : s'.StampOk library stamp :=
  ⟨h.own.mono hissued, h.verified⟩

/-! ## One step of a call -/

structure Worked (library : Library Response) (s : State Response) (call : Call Response)
    (s' : State Response) (next : Option (Call Response)) : Prop where
  issued : s'.issued = s.issued
  calls : s'.calls = s.calls
  store : s'.store ⊆ s.store
  once : ∀ id, (s'.store.map Prod.fst).count id + s'.consumed.count id ≤
    (s.store.map Prod.fst).count id + s.consumed.count id
  /-- A ceremony changes hands, or is taken from the store by one call. -/
  uses : ∀ id, State.uses next.toList s'.stamps id + s.consumed.count id ≤
    State.uses [call] s.stamps id + s'.consumed.count id
  next : ∀ c ∈ next, s.CallOk library c
  stamps : ∀ stamp ∈ s'.stamps, stamp ∈ s.stamps ∨ s.StampOk library stamp

theorem uses_cons (calls : List (Call Response)) (stamps : List (Stamp Response)) :
    uses (call :: calls) stamps id =
      uses calls stamps id + (decide (call.holds = some id)).toNat := by
  unfold uses
  rw [countP_cons]
  cases decide (call.holds = some id) <;> simp [Nat.add_right_comm]

theorem uses_nil (stamps : List (Stamp Response)) :
    uses [] stamps id = stamps.countP (·.assertion.ceremonyId = id) := Nat.zero_add _

/-- A step that leaves the ceremonies alone, and hands on the one the call has or drops it. -/
theorem Worked.passes (hissued : s'.issued = s.issued) (hcalls : s'.calls = s.calls)
    (hstore : s'.store = s.store) (hconsumed : s'.consumed = s.consumed)
    (hstamps : s'.stamps = s.stamps) (hholds : ∀ c ∈ next, c.holds = call.holds)
    (hnext : ∀ c ∈ next, s.CallOk library c) : Worked library s call s' next where
  issued := hissued
  calls := hcalls
  store := by rw [hstore]; exact List.Subset.refl _
  once := fun id => by rw [hstore, hconsumed]
  uses := fun id => by
    rw [hstamps, hconsumed, uses_cons]
    refine Nat.add_le_add_right ?_ _
    cases next with
    | none => exact Nat.le_add_right _ _
    | some c => rw [Option.toList, uses_cons, hholds c rfl]
  next := hnext
  stamps := fun stamp h => .inl (hstamps ▸ h)

theorem findCeremony_mem {ceremony : CeremonyRecord} (h : s.findCeremony id = some ceremony) :
    (id, ceremony) ∈ s.store := by
  obtain ⟨⟨id', _⟩, hfind, rfl⟩ := Option.map_eq_some_iff.1 h
  have hid := find?_some hfind
  cases of_decide_eq_true hid
  exact mem_of_find?_eq_some hfind

theorem take_once (id other : CeremonyId) :
    ((s.take id).store.map Prod.fst).count other + (s.take id).consumed.count other ≤
      (s.store.map Prod.fst).count other + s.consumed.count other := by
  have hsub : ((s.take id).store.map Prod.fst).count other ≤ (s.store.map Prod.fst).count other :=
    (filter_sublist.map _).count_le _
  cases hfound : s.findCeremony id with
  | none =>
    simp only [take, hfound, Option.isSome_none, Bool.false_eq_true, if_false] at hsub ⊢
    exact Nat.add_le_add_right hsub _
  | some ceremony =>
    simp only [take, hfound, Option.isSome_some, if_true] at hsub ⊢
    by_cases heq : id = other
    · -- it was in the store, and no longer is
      subst heq
      have hmem : id ∈ s.store.map Prod.fst := mem_map_of_mem (findCeremony_mem hfound)
      have hpos := count_pos_iff.2 hmem
      have hgone : ((s.store.filter (·.1 ≠ id)).map Prod.fst).count id = 0 := by
        rw [count_eq_zero]
        intro hin
        obtain ⟨p, hp, hid⟩ := mem_map.1 hin
        exact absurd hid (of_decide_eq_true (mem_filter.1 hp).2)
      rw [hgone, count_cons_self]
      omega
    · rw [count_cons_of_ne heq]
      exact Nat.add_le_add_right hsub _

/-- The step that takes a ceremony from the store. -/
theorem Worked.takes (hholds : call.holds = none)
    (hnext : ∀ c ∈ next, s.CallOk library c)
    (hfound : ∀ c ∈ next, c.holds ≠ none → c.holds = some id ∧ (s.findCeremony id).isSome) :
    Worked library s call (s.take id) next where
  issued := rfl
  calls := rfl
  store := filter_subset_self _
  once := take_once id
  uses := fun other => by
    rw [uses_cons, hholds]
    change State.uses next.toList s.stamps other + _ ≤ State.uses [] s.stamps other + 0 + _
    have hle : s.consumed.count other ≤ (s.take id).consumed.count other := by
      unfold take
      split
      · exact count_le_count_cons
      · exact Nat.le_refl _
    cases next with
    | none => exact Nat.add_le_add_left hle _
    | some c =>
      rw [Option.toList, uses_cons]
      by_cases hc : c.holds = some other
      · obtain ⟨hid, hsome⟩ := hfound c rfl (by rw [hc]; nofun)
        cases hid.symm.trans hc
        have hconsumed : (s.take id).consumed = id :: s.consumed := by
          unfold take
          rw [if_pos hsome]
        rw [hconsumed, count_cons_self, decide_eq_true hc]
        exact Nat.le_of_eq (by rw [Bool.toNat_true]; omega)
      · rw [decide_eq_false hc]
        exact Nat.add_le_add_left hle _
  next := hnext
  stamps := fun _ => .inl

/-- The same, and the call ends. -/
theorem Worked.takes_none (hholds : call.holds = none) :
    Worked library s call (s.take id) none :=
  .takes hholds (fun c hc => absurd hc (Option.not_mem_none c))
    fun c hc => absurd hc (Option.not_mem_none c)

/-- The call goes on with the ceremony it has. -/
theorem CallOk.follows {c : Call Response} (h : s.CallOk library call)
    (hclaims : c.claims = call.claims) (hverified : ∀ a, c.assertion = some a → a.Verified library) :
    s.CallOk library c :=
  ⟨fun session id ceremony hc => h.own session id ceremony (hclaims ▸ hc), hverified⟩

theorem Worked.follows (h : s.CallOk library call)
    (hissued : s'.issued = s.issued) (hcalls : s'.calls = s.calls) (hstore : s'.store = s.store)
    (hconsumed : s'.consumed = s.consumed) (hstamps : s'.stamps = s.stamps)
    (hnext : ∀ c ∈ next, c.claims = call.claims ∧ ∀ a, c.assertion = some a → a.Verified library) :
    Worked library s call s' next :=
  .passes hissued hcalls hstore hconsumed hstamps
    (fun c hc => by unfold Call.holds; rw [(hnext c hc).1])
    fun c hc => h.follows (hnext c hc).1 (hnext c hc).2

/-- The call ends. -/
theorem Worked.ends (h : s.CallOk library call) (hissued : s'.issued = s.issued)
    (hcalls : s'.calls = s.calls) (hstore : s'.store = s.store)
    (hconsumed : s'.consumed = s.consumed) (hstamps : s'.stamps = s.stamps) :
    Worked library s call s' none :=
  .follows h hissued hcalls hstore hconsumed hstamps fun c hc => absurd hc (Option.not_mem_none c)

theorem work_worked {answer : Answer} (hsound : s.Sound library) (hcall : s.CallOk library call)
    (hown : s.OwnCeremony (.work call answer)) :
    Worked library s call (work library s answer call).1 (work library s answer call).2 := by
  cases call with
  | consume flow id response =>
    simp only [work]
    cases hfound : s.findCeremony id with
    | none => exact .takes_none rfl
    | some ceremony =>
      simp only
      split
      · exact .takes_none rfl
      · refine .takes rfl ?_ ?_
        · rintro _ ⟨⟩
          refine ⟨?_, nofun⟩
          rintro session _ _ ⟨⟩
          -- the one place where the ceremony meets the session
          simp only [OwnCeremony, hfound, Option.all_some, Bool.and_eq_true,
            decide_eq_true_eq] at hown
          obtain ⟨who, hissued⟩ := hsound.stored _ (findCeremony_mem hfound)
          have hwho : who = ceremony.userId := hsound.stepUps _ hissued hown.1
          exact ⟨by rw [← hown.2, ← hwho]; exact hissued, hown.1⟩
        · rintro _ ⟨⟩ _
          exact ⟨rfl, by rw [hfound]; rfl⟩
  | lookup flow id ceremony response =>
    refine .follows hcall rfl rfl rfl rfl rfl ?_
    intro c hc
    obtain ⟨stored, -, rfl⟩ := Option.map_eq_some_iff.1 hc
    split <;> exact ⟨rfl, nofun⟩
  | belongs flow id ceremony response stored =>
    refine .follows hcall rfl rfl rfl rfl rfl ?_
    intro c hc
    obtain ⟨_, -, rfl⟩ := Option.map_eq_some_iff.1 hc
    exact ⟨rfl, nofun⟩
  | verify flow id ceremony response stored =>
    refine .follows hcall rfl rfl rfl rfl rfl ?_
    intro c hc
    obtain ⟨newSignCount, hverify, hc⟩ := Option.bind_eq_some_iff.1 hc
    split at hc
    · cases hc
    · cases hc
      refine ⟨rfl, ?_⟩
      rintro _ ⟨⟩
      exact ⟨by simp only [decide_eq_true_eq], hverify⟩
  | reread flow a =>
    refine .follows hcall rfl rfl rfl rfl rfl ?_
    intro c hc
    simp only [work] at hc
    split at hc
    · obtain ⟨stored, -, rfl⟩ := Option.map_eq_some_iff.1 hc
      exact ⟨rfl, hcall.verified⟩
    · cases hc
      exact ⟨rfl, hcall.verified⟩
    · cases hc
      exact ⟨rfl, hcall.verified⟩
  | findUser a stored =>
    refine .follows hcall rfl rfl rfl rfl rfl ?_
    intro c hc
    obtain ⟨-, ⟨⟩⟩ := Option.ite_none_right_eq_some.1 hc
    exact ⟨rfl, hcall.verified⟩
  | recordUse flow a stored =>
    refine .follows hcall rfl rfl rfl rfl rfl ?_
    rintro _ ⟨⟩
    exact ⟨rfl, hcall.verified⟩
  | succeed flow a =>
    cases flow with
    | login => exact .ends hcall rfl rfl rfl rfl rfl
    | stepUp session =>
      refine ⟨rfl, rfl, List.Subset.refl _, fun _ => Nat.le_refl _, fun id => ?_,
        fun c hc => absurd hc (Option.not_mem_none c), ?_⟩
      · -- the ceremony goes from the call to its stamp
        refine Nat.add_le_add_right ?_ _
        rw [uses_cons]
        simp only [work, Option.toList, uses_nil, countP_cons, Call.holds, Call.claims,
          Option.map_some, Option.some.injEq]
        by_cases heq : a.ceremonyId = id <;> simp [heq]
      · intro stamp hstamp
        rcases mem_cons.1 hstamp with rfl | hstamp
        · exact .inr ⟨hcall.own session _ _ rfl, hcall.verified a rfl⟩
        · exact .inl hstamp
  | register id response userId =>
    refine .takes rfl ?_ ?_
    · intro c hc
      obtain ⟨ceremony, -, hc⟩ := Option.bind_eq_some_iff.1 hc
      split at hc
      · obtain ⟨credential, -, rfl⟩ := Option.map_eq_some_iff.1 hc
        exact ⟨nofun, nofun⟩
      · cases hc
    · intro c hc hholds
      obtain ⟨ceremony, -, hc⟩ := Option.bind_eq_some_iff.1 hc
      split at hc
      · obtain ⟨credential, -, rfl⟩ := Option.map_eq_some_iff.1 hc
        exact absurd rfl hholds
      · cases hc
  | enroll userId credential =>
    obtain ⟨credentialId, publicKey, signCount⟩ := credential
    simp only [work]
    split <;> exact .ends hcall rfl rfl rfl rfl rfl

/-! ## Every step -/

theorem Sound.of_calls (h : s.Sound library) {calls : List (Call Response)}
    (huses : ∀ id, State.uses calls s.stamps id ≤ s.consumed.count id)
    (hcalls : ∀ call ∈ calls, s.CallOk library call) :
    ({ s with calls } : State Response).Sound library :=
  { distinct := h.distinct
    challenges := h.challenges
    stepUps := h.stepUps
    stored := h.stored
    once := h.once
    uses := huses
    calls := fun call hcall => (hcalls call hcall).mono (List.Subset.refl _)
    stamps := fun stamp hstamp => (h.stamps stamp hstamp).mono (List.Subset.refl _) }

/-- What no call and no ceremony depends on may change, and ceremonies may expire. -/
theorem Sound.of_store (h : s.Sound library) {store : List (CeremonyId × CeremonyRecord)}
    (hstore : store.Sublist s.store) (credentials : List Credential) (sessions : List Session) :
    ({ s with store, credentials, sessions } : State Response).Sound library :=
  { distinct := h.distinct
    challenges := h.challenges
    stepUps := h.stepUps
    stored := fun p hp => h.stored p (hstore.subset hp)
    once := fun id => (Nat.add_le_add_right ((hstore.map _).count_le id) _).trans (h.once id)
    uses := h.uses
    calls := fun call hcall => (h.calls call hcall).mono (List.Subset.refl _)
    stamps := fun stamp hstamp => (h.stamps stamp hstamp).mono (List.Subset.refl _) }

theorem Sound.spawn (h : s.Sound library) (hclaims : call.claims = none)
    (hassertion : call.assertion = none) : (s.spawn (some call)).Sound library := by
  refine h.of_calls (fun id => ?_) ?_
  · change State.uses (call :: s.calls) s.stamps id ≤ _
    rw [uses_cons, Call.holds, hclaims]
    exact h.uses id
  · intro c hc
    rcases mem_cons.1 hc with rfl | hc
    · exact ⟨by rw [hclaims]; nofun, by rw [hassertion]; nofun⟩
    · exact h.calls c hc

theorem Sound.put (h : s.Sound library) {issue : Issue} (hput : s.put issue = some s')
    (hkind : issue.record.kind = .stepup → issue.steppingUp = issue.record.userId) :
    s'.Sound library := by
  unfold State.put at hput
  split at hput
  · rename_i hfresh
    cases hput
    simp only [all_eq_true, Bool.and_eq_true, decide_eq_true_eq] at hfresh
    have hsub : s.issued ⊆ issue :: s.issued := subset_cons_self _ _
    constructor
    case distinct =>
      refine nodup_cons.2 ⟨fun hmem => ?_, h.distinct⟩
      obtain ⟨other, hother, hid⟩ := mem_map.1 hmem
      exact (hfresh other hother).1 hid
    case challenges =>
      refine nodup_cons.2 ⟨fun hmem => ?_, h.challenges⟩
      obtain ⟨other, hother, hchallenge⟩ := mem_map.1 hmem
      exact (hfresh other hother).2 hchallenge
    case stepUps =>
      intro other hother
      rcases mem_cons.1 hother with rfl | hother
      · exact hkind
      · exact h.stepUps other hother
    case stored =>
      intro p hp
      rcases mem_cons.1 hp with rfl | hp
      · exact ⟨issue.steppingUp, mem_cons_self⟩
      · obtain ⟨who, hwho⟩ := h.stored p hp
        exact ⟨who, hsub hwho⟩
    case once =>
      intro id
      have honce := h.once id
      simp only [map_cons, count_cons]
      omega
    case uses => exact h.uses
    case calls => exact fun call hcall => (h.calls call hcall).mono hsub
    case stamps => exact fun stamp hstamp => (h.stamps stamp hstamp).mono hsub
  · cases hput

theorem initial_sound : (initial : State Response).Sound library where
  distinct := nodup_nil
  challenges := nodup_nil
  stepUps := fun _ h => absurd h not_mem_nil
  stored := fun _ h => absurd h not_mem_nil
  once := fun _ => Nat.le_refl _
  uses := fun _ => Nat.le_refl _
  calls := fun _ h => absurd h not_mem_nil
  stamps := fun _ h => absurd h not_mem_nil

variable [DecidableEq Response]

theorem uses_erase {calls : List (Call Response)} (hmem : call ∈ calls)
    (stamps : List (Stamp Response)) :
    uses calls stamps id = uses (calls.erase call) stamps id +
      (decide (call.holds = some id)).toNat := by
  rw [← uses_cons]
  unfold uses
  rw [(perm_cons_erase hmem).countP_eq]

theorem Sound.drop (h : s.Sound library) (hmem : call ∈ s.calls) :
    ({ s with calls := s.calls.erase call } : State Response).Sound library := by
  refine h.of_calls (fun id => ?_) fun c hc => h.calls c (mem_of_mem_erase hc)
  have huses := h.uses id
  rw [uses_erase hmem] at huses
  omega

theorem Sound.work (h : s.Sound library) {answer : Answer} (hmem : call ∈ s.calls)
    (hown : s.OwnCeremony (.work call answer)) :
    let next := work library { s with calls := s.calls.erase call } answer call
    (next.1.spawn next.2).Sound library := by
  intro next
  have hworked : Worked library { s with calls := s.calls.erase call } call next.1 next.2 :=
    work_worked (h.drop hmem) ((h.calls call hmem).mono (List.Subset.refl _)) hown
  have hissued : next.1.issued = s.issued := hworked.issued
  have hsub : s.issued ⊆ (next.1.spawn next.2).issued := by
    change s.issued ⊆ next.1.issued
    rw [hissued]
    exact List.Subset.refl _
  constructor
  case distinct => exact hissued ▸ h.distinct
  case challenges => exact hissued ▸ h.challenges
  case stepUps => exact hissued ▸ h.stepUps
  case stored =>
    intro p hp
    obtain ⟨who, hwho⟩ := h.stored p (hworked.store hp)
    exact ⟨who, hsub hwho⟩
  case once =>
    intro id
    change _ ≤ (next.1.issued.map (·.id)).count id
    rw [hissued]
    exact (hworked.once id).trans (h.once id)
  case uses =>
    intro id
    have hmoved := hworked.uses id
    have huses := h.uses id
    rw [uses_erase hmem] at huses
    rw [uses_cons, uses_nil] at hmoved
    change State.uses (next.2.toList ++ next.1.calls) next.1.stamps id ≤ next.1.consumed.count id
    rw [show next.1.calls = s.calls.erase call from hworked.calls]
    change State.uses next.2.toList next.1.stamps id + s.consumed.count id ≤
      s.stamps.countP (·.assertion.ceremonyId = id) + _ + next.1.consumed.count id at hmoved
    unfold State.uses at huses hmoved ⊢
    rw [countP_append]
    omega
  case calls =>
    intro c hc
    rcases mem_append.1 hc with hc | hc
    · exact (hworked.next c (Option.mem_toList.1 hc)).mono hsub
    · rw [hworked.calls] at hc
      exact (h.calls c (mem_of_mem_erase hc)).mono hsub
  case stamps =>
    intro stamp hstamp
    rcases hworked.stamps stamp hstamp with hstamp | hok
    · exact (h.stamps stamp hstamp).mono hsub
    · exact hok.mono hsub

theorem Sound.step (h : s.Sound library) (hown : s.OwnCeremony label)
    (hstep : step library s label = some s') : s'.Sound library := by
  cases label with
  | beginLogin id challenge => exact h.put hstep nofun
  | beginStepUp session id challenge =>
    simp only [State.step] at hstep
    split at hstep
    · exact h.put hstep fun _ => rfl
    · cases hstep
  | beginRegistration userId id challenge => exact h.put hstep nofun
  | finishLogin id response =>
    cases hstep
    exact h.spawn rfl rfl
  | finishStepUp session id response =>
    simp only [State.step] at hstep
    split at hstep <;> cases hstep
    exact h.spawn rfl rfl
  | finishRegistration id response userId =>
    cases hstep
    exact h.spawn rfl rfl
  | work call answer =>
    simp only [State.step] at hstep
    split at hstep
    · rename_i hmem
      cases hstep
      exact h.work hmem hown
    · cases hstep
  | drop call =>
    simp only [State.step] at hstep
    split at hstep
    · rename_i hmem
      cases hstep
      exact h.drop hmem
    · cases hstep
  | expire id =>
    cases hstep
    exact h.of_store filter_sublist s.credentials s.sessions
  | revokeCredential id =>
    cases hstep
    exact h.of_store (List.Sublist.refl _) _ s.sessions
  | revokeSession session =>
    cases hstep
    exact h.of_store (List.Sublist.refl _) s.credentials _

/-! ## Every run -/

theorem sound_run {run : List (Label Response)}
    (h : Lib.exec (step library) initial run = some s)
    (hok : Lib.Along (step library) (fun s label => s.OwnCeremony label) initial run) :
    s.Sound library :=
  Lib.exec_inv initial_sound (fun _ _ _ ht hown hstep => ht.step hown hstep) hok h

/-- In every run in which step-ups consume only step-up ceremonies of their own session's user: a
stamp rests on a ceremony that the step-up's begin issued for that user and that its own call
consumed, and on an assertion verified with user verification required; no ceremony is consumed
twice, no challenge is issued twice, and no ceremony makes two stamps. -/
theorem step_up_sound {run : List (Label Response)}
    (h : Lib.exec (step library) initial run = some s)
    (hok : Lib.Along (step library) (fun s label => s.OwnCeremony label) initial run) :
    (∀ stamp ∈ s.stamps,
      ⟨some stamp.session.userId, stamp.assertion.ceremonyId, stamp.assertion.ceremony⟩ ∈ s.issued ∧
      stamp.assertion.ceremonyId ∈ s.consumed ∧
      library.verifyAuthentication stamp.assertion.response stamp.assertion.ceremony.challenge
        stamp.assertion.stored.publicKey stamp.assertion.stored.signCount true =
          some stamp.assertion.newSignCount) ∧
    s.consumed.Nodup ∧ (s.issued.map (·.record.challenge)).Nodup ∧
    (s.stamps.map (·.assertion.ceremonyId)).Nodup := by
  have hsound := sound_run h hok
  -- each ceremony was issued once, so it was consumed at most once
  have honce : ∀ id, s.consumed.count id ≤ 1 := by
    intro id
    have hle := hsound.once id
    have hone := nodup_iff_count_le_one.1 hsound.distinct id
    omega
  have hstamps : ∀ id, (s.stamps.map (·.assertion.ceremonyId)).count id ≤ s.consumed.count id := by
    intro id
    have huses := hsound.uses id
    rw [count_eq_countP, countP_map]
    unfold State.uses at huses
    refine le_trans (Nat.le_of_eq ?_) ((Nat.le_add_left _ _).trans huses)
    refine countP_congr fun stamp _ => ?_
    simp
  refine ⟨fun stamp hstamp => ?_, nodup_iff_count_le_one.2 honce, hsound.challenges,
    nodup_iff_count_le_one.2 fun id => (hstamps id).trans (honce id)⟩
  have hok := hsound.stamps stamp hstamp
  have hmem : stamp.assertion.ceremonyId ∈ s.stamps.map (·.assertion.ceremonyId) :=
    mem_map_of_mem hstamp
  refine ⟨hok.own.issued, ?_, ?_⟩
  · exact count_pos_iff.1 ((count_pos_iff.2 hmem).trans_le (hstamps _))
  · have hrequired : stamp.assertion.requireUserVerification = true :=
      hok.verified.required.mpr hok.own.kind
    rw [← hrequired]
    exact hok.verified.verified

end State

/-- An authenticator's answer, for the runs below. -/
structure SampleResponse where
  credentialId : CredentialId
  challenge : String
  userVerified : Bool
deriving DecidableEq, Repr

def sampleLibrary : Library SampleResponse where
  credentialId := SampleResponse.credentialId
  verifyAuthentication response challenge _ signCount requireUserVerification :=
    if response.challenge = challenge && (response.userVerified || !requireUserVerification) then
      some (signCount + 1)
    else none
  verifyRegistration response challenge _ :=
    if response.challenge = challenge then some (response.credentialId, "key", 0) else none

namespace State

def anyAnswer : Answer := ⟨0, "", true⟩

/-- A user registers a passkey and has a session. -/
def enrolled (user : UserId) (passkey : CredentialId) (session : SessionId) (id challenge : String) :
    List (Label SampleResponse) :=
  [.beginRegistration none id challenge, .finishRegistration id ⟨passkey, challenge, true⟩ none,
    .work (.register id ⟨passkey, challenge, true⟩ none) anyAnswer,
    .work (.enroll none (passkey, "key", 0)) ⟨session, user, true⟩]

def credential : Credential := ⟨1, "alice", "alice's", "key", 0, false⟩

def alice : Session := ⟨1, "alice"⟩

/-- Alice's session finishes a step-up with the ceremony, from the lookup on. -/
def concluded (id : CeremonyId) (ceremony : CeremonyRecord) (response : SampleResponse)
    (required : Bool) : List (Label SampleResponse) :=
  let assertion := ⟨id, ceremony, response, credential, required, 1⟩
  [.work (.verify (.stepUp alice) id ceremony response credential) anyAnswer,
    .work (.reread (.stepUp alice) assertion) anyAnswer,
    .work (.recordUse (.stepUp alice) assertion credential) anyAnswer,
    .work (.succeed (.stepUp alice) assertion) anyAnswer]

/-- A step-up as it should be. -/
def steppingUp : List (Label SampleResponse) :=
  enrolled "alice" "alice's" 1 "r1" "x1" ++
  [.beginStepUp alice "s1" "x2", .finishStepUp alice "s1" ⟨"alice's", "x2", true⟩,
    .work (.consume (.stepUp alice) "s1" ⟨"alice's", "x2", true⟩) anyAnswer,
    .work (.lookup (.stepUp alice) "s1" ⟨.stepup, "x2", some "alice"⟩ ⟨"alice's", "x2", true⟩)
      anyAnswer,
    .work (.belongs (.stepUp alice) "s1" ⟨.stepup, "x2", some "alice"⟩ ⟨"alice's", "x2", true⟩
      credential) anyAnswer] ++
  concluded "s1" ⟨.stepup, "x2", some "alice"⟩ ⟨"alice's", "x2", true⟩ true

theorem step_up_sound_alice : ∃ s, Lib.exec (step sampleLibrary) initial steppingUp = some s ∧
    s.stamps.map (·.session) = [alice] ∧
    ∀ stamp ∈ s.stamps,
      ⟨some stamp.session.userId, stamp.assertion.ceremonyId, stamp.assertion.ceremony⟩ ∈
        s.issued := by
  obtain ⟨s, hs, hstamps⟩ : ∃ s, Lib.exec (step sampleLibrary) initial steppingUp = some s ∧
      s.stamps.map (·.session) = [alice] := Lib.exec_reaches (by decide +kernel)
  exact ⟨s, hs, hstamps, fun stamp hstamp =>
    ((step_up_sound hs (by decide +kernel)).1 stamp hstamp).1⟩

/-- The ceremony of a login, answered without user verification. -/
def byLogin : List (Label SampleResponse) :=
  enrolled "alice" "alice's" 1 "r1" "x1" ++
  [.beginLogin "l1" "x2", .finishStepUp alice "l1" ⟨"alice's", "x2", false⟩,
    .work (.consume (.stepUp alice) "l1" ⟨"alice's", "x2", false⟩) anyAnswer,
    .work (.lookup (.stepUp alice) "l1" ⟨.authentication, "x2", none⟩ ⟨"alice's", "x2", false⟩)
      anyAnswer] ++
  concluded "l1" ⟨.authentication, "x2", none⟩ ⟨"alice's", "x2", false⟩ false

/-- A step-up ceremony that Bob began. -/
def byAnother : List (Label SampleResponse) :=
  enrolled "alice" "alice's" 1 "r1" "x1" ++ enrolled "bob" "bob's" 2 "r2" "x2" ++
  [.beginStepUp ⟨2, "bob"⟩ "s1" "x3", .finishStepUp alice "s1" ⟨"alice's", "x3", true⟩,
    .work (.consume (.stepUp alice) "s1" ⟨"alice's", "x3", true⟩) anyAnswer,
    .work (.lookup (.stepUp alice) "s1" ⟨.stepup, "x3", some "bob"⟩ ⟨"alice's", "x3", true⟩)
      anyAnswer,
    .work (.belongs (.stepUp alice) "s1" ⟨.stepup, "x3", some "bob"⟩ ⟨"alice's", "x3", true⟩
      credential) anyAnswer] ++
  concluded "s1" ⟨.stepup, "x3", some "bob"⟩ ⟨"alice's", "x3", true⟩ true

/-- Alice's session is stamped on a login's challenge with no user verification, which the library
would have refused where it is required; and on a challenge issued for Bob. -/
theorem login_steps_up :
    (∃ s, Lib.exec (step sampleLibrary) initial byLogin = some s ∧
      s.stamps.map (fun stamp => (stamp.session, stamp.assertion.ceremony.kind,
        stamp.assertion.requireUserVerification)) = [(alice, .authentication, false)] ∧
      (∀ issue ∈ s.issued, issue.steppingUp = none) ∧
      sampleLibrary.verifyAuthentication ⟨"alice's", "x2", false⟩ "x2" "key" 0 true = none) ∧
    ∃ s, Lib.exec (step sampleLibrary) initial byAnother = some s ∧
      s.stamps.map (fun stamp => (stamp.session, stamp.assertion.ceremony.userId)) =
        [(alice, some "bob")] ∧
      ∀ issue ∈ s.issued, issue.steppingUp ≠ some "alice" :=
  ⟨Lib.exec_reaches (by decide +kernel), Lib.exec_reaches (by decide +kernel)⟩

end State
end AtlasCex.Auth
