import AtlasCex.Withdrawals.Leases
import AtlasCex.Withdrawals.Locks
import AtlasCex.Withdrawals.Requests
import Mathlib.Algebra.Order.BigOperators.Group.List
/-!
# The rolling cap holds under concurrency

No lock and no transaction spans the read of the recent withdrawals and the decision. But each
request is inserted before it reads, so of any withdrawals that were approved, the one inserted last
read all the others (`Seen`): a row that is not rejected now was not rejected then.

`rolling_cap`: whatever the calls in flight, what was inserted within 24 hours less the longest delay
from insertion to evaluation and locked without an operator is within the daily limit.
-/
namespace AtlasCex.Withdrawals

open List
open Ledger (UserId AssetKey)
open Risk (RiskInput RiskPolicy RiskDecision Verdict WithdrawalHistoryEntry day)

/-! ## What moves a status -/

theorem WithdrawalStatus.early_of_passesOn {source target : WithdrawalStatus}
    (h : source.passesOn target = true) : source.early = false ∧ target.early = false := by
  revert h
  cases source <;> cases target <;> decide

/-- Past the decision: approved, or beyond. -/
def WithdrawalStatus.passed : WithdrawalStatus → Bool
  | requested | riskEvaluating | manualReview | rejected => false
  | _ => true

theorem WithdrawalStatus.passed_of_not_early {status : WithdrawalStatus}
    (h : status.early = false) : status.passed = true ∧ status ≠ .rejected := by
  revert h
  cases status <;> decide

/-- The workers take no withdrawal up before it is locked, and put none back. -/
theorem World.step_early {config : Withdrawals.Config} {s s' : World} {label : Withdrawals.Label}
    (h : World.step config s label = some s') (hlock : ∀ w, label ≠ .lockFunds w)
    (w : WithdrawalId) : (s'.rows w).status = (s.rows w).status ∨
      (s.rows w).status.early = false ∧ (s'.rows w).status.early = false := by
  -- a claim moves one row, along an edge past the lock
  have hclaim : ∀ {w' : WithdrawalId} {target : WithdrawalStatus}, (s.rows w').status.early = false →
      target.early = false → (Function.update s.rows w' { s.rows w' with status := target } w).status =
        (s.rows w).status ∨ (s.rows w).status.early = false ∧
          (Function.update s.rows w' { s.rows w' with status := target } w).status.early = false := by
    intro w' target hsource htarget
    by_cases heq : w = w'
    · subst heq
      rw [Function.update_self]
      exact .inr ⟨hsource, htarget⟩
    · rw [Function.update_of_ne heq]
      exact .inl rfl
  cases World.step_stepped h with
  | locks => exact absurd rfl (hlock _)
  | signs hstatus => exact hclaim (by rw [hstatus]; rfl) rfl
  | broadcasts hstatus _ => exact hclaim (by rw [hstatus]; rfl) rfl
  | @works task _ t next _ hworked =>
    have hrow : World.RowTurns task next w (s.rows w) (t.rows w) := hworked.rows w
    show (t.rows w).status = _ ∨ _ ∧ (t.rows w).status.early = _
    cases hrow with
    | same hstatus _ _ _ => exact .inl hstatus
    | signed _ _ _ hstatus hrow => exact .inr ⟨by rw [hstatus]; rfl, by rw [hrow]; rfl⟩
    | failed _ _ hstatus hstatus' => exact .inr ⟨by rw [hstatus]; rfl, by rw [hstatus']; rfl⟩
    | passes _ hpasses _ => exact .inr (WithdrawalStatus.early_of_passesOn hpasses)
  | lists | crashes | chain => exact .inl rfl

namespace Desk

variable {config : Config} {desk desk' : Desk} {label : Label}

/-- What a step does to one status. -/
inductive Moved (label : Label) (w : WithdrawalId) :
    WithdrawalStatus → WithdrawalStatus → Prop where
  | same {status : WithdrawalStatus} : Moved label w status status
  | works {source target : WithdrawalStatus} (hsource : source.early = false)
      (htarget : target.early = false) : Moved label w source target
  | decided (decision : Decision) (hlabel : label = .decide w decision) :
      Moved label w decision.source decision.target
  | locked (hlabel : label = .lockFunds w) : Moved label w .approved .fundsLocked

variable {w : WithdrawalId} {source target : WithdrawalStatus}

theorem moved_update {rows : WithdrawalId → Withdrawal} {row : Withdrawal}
    (h : (rows w).transition source target none = some row)
    (hmoved : Moved label w source target) (w' : WithdrawalId) :
    Moved label w' (rows w').status (Function.update rows w row w').status := by
  by_cases heq : w' = w
  · subst heq
    obtain ⟨hstatus, rfl⟩ := Withdrawal.transition_eq h
    rwa [Function.update_self, Withdrawal.increment_status, hstatus]
  · rw [Function.update_of_ne heq]
    exact .same

theorem step_moved (h : step config desk label = some desk') (w : WithdrawalId) :
    Moved label w (desk.world.rows w).status (desk'.world.rows w).status := by
  cases label with
  | request w' d =>
    simp only [step] at h
    split at h <;> cases h
    exact .same
  | decide w' decision =>
    obtain ⟨d, -, h⟩ := Option.bind_eq_some_iff.1 h
    obtain ⟨row, hrow, rfl⟩ := Option.map_eq_some_iff.1 h
    exact moved_update hrow (.decided decision rfl) w
  | lockFunds w' =>
    obtain ⟨d, -, h⟩ := Option.bind_eq_some_iff.1 h
    split at h
    · obtain ⟨t, -, h⟩ := Option.bind_eq_some_iff.1 h
      obtain ⟨world, hworld, rfl⟩ := Option.map_eq_some_iff.1 h
      obtain ⟨row, hrow, rfl⟩ := Option.map_eq_some_iff.1 hworld
      exact moved_update hrow (.locked rfl) w
    · cases h
  | worker label networkFee =>
    obtain ⟨t, hposting, h⟩ := Option.bind_eq_some_iff.1 h
    obtain ⟨world, hworld, rfl⟩ := Option.map_eq_some_iff.1 h
    have hlock : ∀ w, label ≠ .lockFunds w := by
      rintro w rfl
      cases hposting
    rcases World.step_early hworld hlock w with hsame | ⟨hsource, htarget⟩
    · change Moved _ w _ (world.rows w).status
      rw [hsame]
      exact .same
    · exact .works hsource htarget
  | post t =>
    simp only [step] at h
    split at h <;> cases h
    exact .same

theorem step_withdrawals (h : step config desk label = some desk') :
    desk'.withdrawals = desk.withdrawals ∨ ∃ w d, label = .request w d ∧
      (∀ row ∈ desk.withdrawals, row.1 ≠ w) ∧ desk'.withdrawals = desk.withdrawals ++ [(w, d)] := by
  cases label with
  | request w d =>
    simp only [step] at h
    split at h
    · rename_i hfresh
      cases h
      refine .inr ⟨w, d, rfl, fun row hrow => ?_, rfl⟩
      simp only [all_eq_true, decide_eq_true_eq] at hfresh
      exact (hfresh row hrow).1
    · cases h
  | decide w decision =>
    obtain ⟨d, -, h⟩ := Option.bind_eq_some_iff.1 h
    obtain ⟨row, -, rfl⟩ := Option.map_eq_some_iff.1 h
    exact .inl rfl
  | lockFunds w =>
    obtain ⟨d, -, h⟩ := Option.bind_eq_some_iff.1 h
    split at h
    · obtain ⟨t, -, h⟩ := Option.bind_eq_some_iff.1 h
      obtain ⟨world, -, rfl⟩ := Option.map_eq_some_iff.1 h
      exact .inl rfl
    · cases h
  | worker label networkFee =>
    obtain ⟨t, -, h⟩ := Option.bind_eq_some_iff.1 h
    obtain ⟨world, -, rfl⟩ := Option.map_eq_some_iff.1 h
    exact .inl rfl
  | post t =>
    simp only [step] at h
    split at h <;> cases h
    exact .inl rfl

theorem Moved.rejected (h : Moved label w .rejected target) : target = .rejected := by
  generalize hsource : WithdrawalStatus.rejected = source at h
  cases h with
  | same => rfl
  | works hsource' _ =>
    subst hsource
    cases hsource'
  | decided decision _ => cases decision <;> cases hsource
  | locked _ => cases hsource

theorem Moved.early
    (h : Moved label w source target) (hsource : source.early = false) : target.early = false := by
  cases h with
  | same => exact hsource
  | works _ htarget => exact htarget
  | decided decision _ => cases decision <;> cases hsource
  | locked _ => rfl

theorem Moved.passed
    (h : Moved label w source target) (htarget : target.passed = true) : source.passed = true ∨
      label = .decide w .autoApproved ∨ label = .decide w .operatorApproved := by
  cases h with
  | same => exact .inl htarget
  | works hsource _ => exact .inl (WithdrawalStatus.passed_of_not_early hsource).1
  | locked _ => exact .inl rfl
  | decided decision hlabel =>
    cases decision with
    | autoApproved => exact .inr (.inl hlabel)
    | operatorApproved => exact .inr (.inr hlabel)
    | _ => cases htarget

end Desk

namespace Service

variable {config : Config} {s s' : Service} {label : Label} {call : Call} {next : Option Call}
  {w : WithdrawalId}

/-! ## What a request has seen -/

/-- The recent withdrawals a request had in hand: of the rows there were when it read, its own among
them, all of the user's in the window that have not been rejected. -/
def Seen (s : Service) (w : WithdrawalId) (userId : UserId) (now : Int)
    (recent : List WithdrawalHistoryEntry) : Prop :=
  ∃ read listed : List (WithdrawalId × Details), read <+: s.desk.withdrawals ∧
    w ∈ read.map Prod.fst ∧ listed.Sublist read ∧ recent = listed.map s.historyEntry ∧
    ∀ row ∈ read, row.2.userId = userId → now - day ≤ s.createdAt row.1 →
      s.status row.1 ≠ .rejected → row ∈ listed

/-- The engine approved it, or it never asked the engine. -/
def Approves (s : Service) (w : WithdrawalId) : Prop :=
  (∃ e ∈ s.decisions, e.withdrawal = w ∧ e.decision.verdict = .approve) ∨
    ∃ d, (w, d) ∈ s.desk.withdrawals ∧ d.purpose ≠ .external

structure Evaluated (config : Config) (s : Service) (e : Evaluation) : Prop where
  row : ∃ d, (e.withdrawal, d) ∈ s.desk.withdrawals ∧ e.input.userId = d.userId ∧
    e.input.asset = d.asset ∧ e.input.amount = d.amount
  decision : e.decision = Risk.evaluate e.input config.policy
  seen : s.Seen e.withdrawal e.input.userId e.input.now e.input.recentWithdrawals

def CallOk (s : Service) : Call → Prop
  | .evaluating w d _ | .readUser w d _ | .readRecent w d _ _ _ => (w, d) ∈ s.desk.withdrawals
  | .readPrior w d _ now _ recent | .evaluate w d _ now _ recent _ =>
    (w, d) ∈ s.desk.withdrawals ∧ s.Seen w d.userId now recent
  | .conclude w .approve | .approveInternal w => s.Approves w
  | _ => True

/-- What every step keeps. -/
structure Grows (s s' : Service) : Prop where
  withdrawals : s.desk.withdrawals <+: s'.desk.withdrawals
  columns : ∀ row ∈ s.desk.withdrawals, s'.columns row.1 = s.columns row.1
  rejected : ∀ w, s.status w = .rejected → s'.status w = .rejected
  decisions : s.decisions ⊆ s'.decisions
  distinct : (s.desk.withdrawals.map Prod.fst).Nodup → (s'.desk.withdrawals.map Prod.fst).Nodup
  locked : ∀ w, (s.status w).early = false → (s'.status w).early = false

theorem Grows.refl (s : Service) : Grows s s :=
  ⟨prefix_rfl, fun _ _ => rfl, fun _ => id, List.Subset.refl _, id, fun _ => id⟩

theorem Grows.of_eq (hdesk : s'.desk = s.desk) (hcolumns : s'.columns = s.columns)
    (hdecisions : s.decisions ⊆ s'.decisions) : Grows s s' := by
  refine ⟨?_, fun _ _ => by rw [hcolumns], fun w hw => ?_, hdecisions, ?_, fun w hw => ?_⟩
  · rw [hdesk]
  · unfold status at hw ⊢
    rwa [hdesk]
  · rw [hdesk]
    exact id
  · unfold status at hw ⊢
    rwa [hdesk]

variable {l : Desk.Label}

theorem Grows.of_desk (hdesk : s.desk.step config.desk l = some s'.desk)
    (hcolumns : ∀ row ∈ s.desk.withdrawals, s'.columns row.1 = s.columns row.1)
    (hdecisions : s'.decisions = s.decisions) : Grows s s' := by
  refine ⟨?_, hcolumns, fun w hw => ?_, by rw [hdecisions]; exact List.Subset.refl _, ?_,
    fun w => (Desk.step_moved hdesk w).early⟩
  · rcases Desk.step_withdrawals hdesk with hsame | ⟨w, d, -, -, hnew⟩
    · rw [hsame]
    · rw [hnew]
      exact prefix_append _ _
  · have hmoved := Desk.step_moved hdesk w
    unfold status at hw
    rw [hw] at hmoved
    exact hmoved.rejected
  · rcases Desk.step_withdrawals hdesk with hsame | ⟨w, d, -, hfresh, hnew⟩
    · rw [hsame]
      exact id
    · intro hdistinct
      rw [hnew, map_append, nodup_append]
      refine ⟨hdistinct, nodup_singleton _, fun v hv v' hv' => ?_⟩
      obtain ⟨row, hrow, rfl⟩ := mem_map.1 hv
      cases mem_singleton.1 hv'
      exact hfresh row hrow

variable {userId : UserId}

theorem Seen.mono (hg : Grows s s') {now : Int}
    {recent : List WithdrawalHistoryEntry} (h : s.Seen w userId now recent) :
    s'.Seen w userId now recent := by
  obtain ⟨read, listed, hread, hw, hlisted, hrecent, hall⟩ := h
  have hcreated : ∀ row ∈ read, s'.createdAt row.1 = s.createdAt row.1 := by
    intro row hrow
    unfold createdAt
    rw [hg.columns row (hread.subset hrow)]
  refine ⟨read, listed, hread.trans hg.withdrawals, hw, hlisted, ?_, ?_⟩
  · rw [hrecent]
    refine map_congr_left fun row hrow => ?_
    unfold historyEntry
    rw [hcreated row (hlisted.subset hrow)]
  · intro row hrow huser hsince hstatus
    rw [hcreated row hrow] at hsince
    exact hall row hrow huser hsince fun hrejected => hstatus (hg.rejected _ hrejected)

theorem Approves.mono (hg : Grows s s') (h : s.Approves w) : s'.Approves w := by
  rcases h with ⟨e, he, hw⟩ | ⟨d, hd, hpurpose⟩
  · exact .inl ⟨e, hg.decisions he, hw⟩
  · exact .inr ⟨d, hg.withdrawals.subset hd, hpurpose⟩

theorem Evaluated.mono {e : Evaluation} (hg : Grows s s') (h : Evaluated config s e) :
    Evaluated config s' e := by
  obtain ⟨d, hd, hrow⟩ := h.row
  exact ⟨⟨d, hg.withdrawals.subset hd, hrow⟩, h.decision, h.seen.mono hg⟩

theorem CallOk.mono (hg : Grows s s') (h : s.CallOk call) : s'.CallOk call := by
  cases call with
  | evaluating => exact hg.withdrawals.subset h
  | readUser => exact hg.withdrawals.subset h
  | readRecent => exact hg.withdrawals.subset h
  | readPrior => exact ⟨hg.withdrawals.subset h.1, h.2.mono hg⟩
  | evaluate => exact ⟨hg.withdrawals.subset h.1, h.2.mono hg⟩
  | conclude w verdict =>
    cases verdict with
    | approve => exact Approves.mono hg h
    | _ => trivial
  | approveInternal => exact Approves.mono hg h
  | lock => trivial
  | lockFailed => trivial

/-- A request that reads now sees all of its user's withdrawals that count. -/
theorem seen_read {d : Details} (hrow : (w, d) ∈ s.desk.withdrawals) (now : Int) :
    s.Seen w d.userId now ((s.listRecentForUser d.userId (now - day)).map s.historyEntry) := by
  refine ⟨s.desk.withdrawals, _, prefix_rfl, mem_map_of_mem hrow, filter_sublist,
    rfl, ?_⟩
  intro row hmem huser hsince hstatus
  refine mem_filter.2 ⟨hmem, ?_⟩
  simp only [huser, hsince, hstatus, decide_true, ne_eq, not_false_eq_true, Bool.and_self]

/-! ## Every step -/

/-- What a step of the service leaves in order. -/
structure Acted (config : Config) (s s' : Service) (next : Option Call) : Prop where
  calls : s'.calls = s.calls
  grows : Grows s s'
  next : ∀ c ∈ next, s'.CallOk c
  decisions : ∀ e ∈ s'.decisions, e ∈ s.decisions ∨ Evaluated config s' e
  passed : ∀ w, (s'.status w).passed → (s.status w).passed ∨ s'.Approves w

theorem Acted.reads (h : ∀ c ∈ next, s.CallOk c) : Acted config s s next :=
  ⟨rfl, .refl s, h, fun _ => .inl, fun _ => .inl⟩

theorem Acted.moves {desk : Desk} (hdesk : s.desk.step config.desk l = some desk)
    (hoperator : l ≠ .decide w .operatorApproved)
    (happroves : l = .decide w .autoApproved → s.Approves w)
    (hlabel : ∀ w' decision, l = .decide w' decision → w' = w)
    (hnext : ∀ c ∈ next, s.CallOk c) : Acted config s { s with desk } next := by
  have hgrows : Grows s { s with desk } := .of_desk hdesk (fun _ _ => rfl) rfl
  refine ⟨rfl, hgrows, fun c hc => (hnext c hc).mono hgrows, fun _ => .inl, fun w' hpassed => ?_⟩
  rcases (Desk.step_moved hdesk w').passed hpassed with h | h | h
  · exact .inl h
  · cases hlabel w' _ h
    exact .inr ((happroves h).mono hgrows)
  · cases hlabel w' _ h
    exact absurd h hoperator

theorem Acted.decide {decision : Decision} {after : Option Call}
    (h : some (s.decide config w decision after) = some (s', next))
    (hoperator : decision ≠ .operatorApproved) (hauto : decision = .autoApproved → s.Approves w)
    (hafter : ∀ c ∈ after, s.CallOk c) : Acted config s s' next := by
  have heq := Option.some.inj h
  unfold Service.decide at heq
  cases hdesk : s.desk.step config.desk (.decide w decision) with
  | none =>
    rw [hdesk] at heq
    cases heq
    exact .reads nofun
  | some desk =>
    rw [hdesk] at heq
    cases heq
    refine .moves (w := w) hdesk ?_ ?_ ?_ hafter
    · rintro ⟨⟩
      exact hoperator rfl
    · rintro ⟨⟩
      exact hauto rfl
    · rintro w' decision' ⟨⟩
      rfl

theorem callOk_conclude {verdict : Verdict} (h : verdict = .approve → s.Approves w) :
    s.CallOk (.conclude w verdict) := by
  cases verdict with
  | approve => exact h rfl
  | _ => trivial

theorem act_acted {answer : Answer} (hcall : s.CallOk call)
    (h : act config s call answer = some (s', next)) : Acted config s s' next := by
  unfold act at h
  split at h
  case h_1 w d destination =>
    refine .decide h nofun nofun ?_
    rintro _ ⟨⟩
    split
    · exact hcall
    · rename_i hpurpose
      exact .inr ⟨d, hcall, hpurpose⟩
  case h_2 w d destination now status =>
    cases h
    exact .reads (by rintro _ ⟨⟩; exact hcall)
  case h_3 w d destination now status =>
    cases h
    refine .reads ?_
    rintro _ ⟨⟩
    exact ⟨hcall, seen_read hcall now⟩
  case h_4 =>
    cases h
    exact .reads (by rintro _ ⟨⟩; exact hcall)
  case h_5 w d destination now status recent prior check value =>
    cases h
    have hgrows : ∀ e, Grows s { s with decisions := s.decisions ++ [e] } := fun e =>
      .of_eq rfl rfl (subset_append_left _ _)
    refine ⟨rfl, hgrows _, ?_, ?_, fun _ => .inl⟩
    · rintro _ ⟨⟩
      refine callOk_conclude fun hverdict => .inl ?_
      exact ⟨_, mem_append_right _ (mem_singleton.2 rfl), rfl, hverdict⟩
    · intro e he
      rcases mem_append.1 he with he | he
      · exact .inl he
      · cases mem_singleton.1 he
        exact .inr ⟨⟨d, hcall.1, rfl, rfl, rfl⟩, rfl, hcall.2.mono (hgrows _)⟩
  case h_6 => exact .decide h nofun nofun nofun
  case h_7 => exact .decide h nofun nofun nofun
  case h_8 => exact .decide h nofun (fun _ => hcall) (by rintro _ ⟨⟩; trivial)
  case h_9 => exact .decide h nofun (fun _ => hcall) (by rintro _ ⟨⟩; trivial)
  case h_10 w =>
    obtain ⟨desk, hdesk, heq⟩ := Option.map_eq_some_iff.1 h
    cases heq
    exact .moves (w := w) hdesk nofun nofun nofun nofun
  case h_11 =>
    cases h
    exact .reads (by rintro _ ⟨⟩; trivial)
  case h_12 => exact .decide h nofun nofun nofun
  case h_13 => cases h

structure Kept (config : Config) (s : Service) : Prop where
  distinct : (s.desk.withdrawals.map Prod.fst).Nodup
  calls : ∀ c ∈ s.calls, s.CallOk c
  decisions : ∀ e ∈ s.decisions, Evaluated config s e

/-- A step keeps what it should, and takes no withdrawal past the decision but by an approval. -/
structure Stepped (config : Config) (label : Label) (s s' : Service) : Prop where
  kept : Kept config s'
  grows : Grows s s'
  passed : ∀ w, label ≠ .approve w → (s'.status w).passed → (s.status w).passed ∨ s'.Approves w

theorem grows_calls (s : Service) (calls : List Call) : Grows s { s with calls } :=
  .of_eq rfl rfl (List.Subset.refl _)

theorem Acted.stepped (hacted : Acted config s s' next) (h : Kept config s) :
    Stepped config label s { s' with calls := next.toList ++ s'.calls } := by
  have hgrows := grows_calls s' (next.toList ++ s'.calls)
  refine ⟨⟨hacted.grows.distinct h.distinct, ?_, ?_⟩, ?_, ?_⟩
  · intro c hc
    rcases mem_append.1 hc with hc | hc
    · exact (hacted.next c (Option.mem_toList.1 hc)).mono hgrows
    · rw [hacted.calls] at hc
      exact ((h.calls c hc).mono hacted.grows).mono hgrows
  · intro e he
    rcases hacted.decisions e he with he | he
    · exact ((h.decisions e he).mono hacted.grows).mono hgrows
    · exact he.mono hgrows
  · exact { hacted.grows with }
  · intro w _ hpassed
    exact (hacted.passed w hpassed).imp_right (·.mono hgrows)

theorem Kept.desk (h : Kept config s) {desk : Desk} {calls : List Call}
    (hdesk : s.desk.step config.desk l = some desk)
    (hl : ∀ w decision, l = .decide w decision → decision ≠ .autoApproved ∧
      (decision = .operatorApproved → label = .approve w))
    (hcalls : ∀ c ∈ calls, c ∈ s.calls ∨ ∃ w, c = .lock w) :
    Stepped config label s { s with desk, calls } := by
  have hgrows : Grows s { s with desk, calls } := .of_desk hdesk (fun _ _ => rfl) rfl
  refine ⟨⟨hgrows.distinct h.distinct, ?_, fun e he => (h.decisions e he).mono hgrows⟩, hgrows, ?_⟩
  · intro c hc
    rcases hcalls c hc with hc | ⟨w, rfl⟩
    · exact (h.calls c hc).mono hgrows
    · trivial
  · intro w hne hpassed
    rcases (Desk.step_moved hdesk w).passed hpassed with hp | hauto | hoperator
    · exact .inl hp
    · exact absurd rfl (hl w _ hauto).1
    · exact absurd ((hl w _ hoperator).2 rfl) hne

theorem Kept.request (h : Kept config s) {d : Details} {columns : Columns} {desk : Desk}
    (hdesk : s.desk.step config.desk (.request w d) = some desk) :
    Stepped config label s
      { s with
        desk
        columns := Function.update s.columns w columns
        calls := .evaluating w d columns.destination :: s.calls } := by
  rcases Desk.step_withdrawals hdesk with hsame | ⟨w', d', hlabel, hfresh, hnew⟩
  · -- an insert adds a row
    simp only [Desk.step] at hdesk
    split at hdesk <;> cases hdesk
    simp at hsame
  · cases hlabel
    have hgrows : Grows s { s with
        desk
        columns := Function.update s.columns w columns
        calls := .evaluating w d columns.destination :: s.calls } :=
      .of_desk hdesk (fun row hrow => Function.update_of_ne (hfresh row hrow) ..) rfl
    refine ⟨⟨hgrows.distinct h.distinct, ?_, fun e he => (h.decisions e he).mono hgrows⟩, hgrows, ?_⟩
    · intro c hc
      rcases mem_cons.1 hc with rfl | hc
      · change (w, d) ∈ desk.withdrawals
        rw [hnew]
        exact mem_append_right _ (mem_singleton.2 rfl)
      · exact (h.calls c hc).mono hgrows
    · intro w' _ hpassed
      rcases (Desk.step_moved hdesk w').passed hpassed with hp | hauto | hoperator
      · exact .inl hp
      · cases hauto
      · cases hoperator

theorem Kept.step (h : Kept config s) (hstep : step config s label = some s') :
    Stepped config label s s' := by
  cases label with
  | request w d columns =>
    simp only [Service.step] at hstep
    split at hstep
    · cases hstep
      exact ⟨h, .refl s, fun _ _ => .inl⟩
    · obtain ⟨desk, hdesk, rfl⟩ := Option.map_eq_some_iff.1 hstep
      exact h.request hdesk
  | call call answer =>
    simp only [Service.step] at hstep
    split at hstep
    · rename_i hmem
      obtain ⟨⟨t, next⟩, hact, rfl⟩ := Option.map_eq_some_iff.1 hstep
      have hgrows := grows_calls s (s.calls.erase call)
      have hkept : Kept config { s with calls := s.calls.erase call } :=
        ⟨h.distinct, fun c hc => (h.calls c (mem_of_mem_erase hc)).mono hgrows,
          fun e he => (h.decisions e he).mono hgrows⟩
      have hstepped : Stepped config (.call call answer) { s with calls := s.calls.erase call } _ :=
        (act_acted ((h.calls call hmem).mono hgrows) hact).stepped hkept
      exact ⟨hstepped.kept, { hstepped.grows with }, hstepped.passed⟩
    · cases hstep
  | stop call =>
    simp only [Service.step] at hstep
    split at hstep <;> cases hstep
    have hgrows := grows_calls s (s.calls.erase call)
    exact ⟨⟨h.distinct, fun c hc => (h.calls c (mem_of_mem_erase hc)).mono hgrows,
      fun e he => (h.decisions e he).mono hgrows⟩, hgrows, fun _ _ => .inl⟩
  | approve w =>
    obtain ⟨desk, hdesk, rfl⟩ := Option.map_eq_some_iff.1 hstep
    refine h.desk hdesk ?_ ?_
    · rintro w' decision ⟨⟩
      exact ⟨nofun, fun _ => rfl⟩
    · intro c hc
      rcases mem_cons.1 hc with rfl | hc
      · exact .inr ⟨w, rfl⟩
      · exact .inl hc
  | reject w =>
    obtain ⟨desk, hdesk, rfl⟩ := Option.map_eq_some_iff.1 hstep
    exact h.desk hdesk (by rintro w' decision ⟨⟩; exact ⟨nofun, nofun⟩) fun _ => .inl
  | worker l networkFee =>
    obtain ⟨desk, hdesk, rfl⟩ := Option.map_eq_some_iff.1 hstep
    exact h.desk hdesk nofun fun _ => .inl
  | post t =>
    obtain ⟨desk, hdesk, rfl⟩ := Option.map_eq_some_iff.1 hstep
    exact h.desk hdesk nofun fun _ => .inl

/-! ## Every run -/

/-- The withdrawal was in `FUNDS_LOCKED` at some point of the run, and no operator approved it. -/
def autoLocked (config : Config) (run : List Label) (w : WithdrawalId) : Bool :=
  (run.inits.any fun before =>
    (Lib.exec (step config) initial before).any fun t => t.status w = .fundsLocked) &&
  !run.contains (.approve w)

/-- The user's external withdrawals of the asset that were created from `from_` to `to_` and locked
without an operator. -/
def locked (config : Config) (run : List Label) (s : Service) (userId : UserId) (asset : AssetKey)
    (from_ to_ : Int) : List (WithdrawalId × Details) :=
  s.desk.withdrawals.filter fun (w, d) =>
    d.userId = userId && d.asset = asset && d.purpose = .external &&
      from_ ≤ s.createdAt w && s.createdAt w ≤ to_ && autoLocked config run w

def total (rows : List (WithdrawalId × Details)) : Int := (rows.map (·.2.amount)).sum

theorem initial_kept : Kept config initial :=
  ⟨nodup_nil, fun _ hc => absurd hc not_mem_nil, fun _ he => absurd he not_mem_nil⟩

variable {run : List Label}

theorem kept_run (h : Lib.exec (step config) initial run = some s) :
    Kept config s :=
  Lib.exec_always initial_kept (fun _ _ _ ht hstep => (ht.step hstep).kept) h

/-- Past the lock there is no way back. -/
theorem Kept.stays_locked (h : Kept config s)
    (hexec : Lib.exec (Service.step config) s run = some s')
    (hlocked : (s.status w).early = false) : (s'.status w).early = false := by
  have hinv : Kept config s' ∧ (s'.status w).early = false := by
    refine Lib.exec_always (I := fun t => Kept config t ∧ (t.status w).early = false)
      ⟨h, hlocked⟩ ?_ hexec
    rintro t label t' ⟨ht, hl⟩ hstep
    exact ⟨(ht.step hstep).kept, (ht.step hstep).grows.locked w hl⟩
  exact hinv.2

theorem approves_run (h : Lib.exec (step config) initial run = some s)
    (hoperator : .approve w ∉ run) (hpassed : (s.status w).passed) : s.Approves w := by
  have halong : Lib.Along (step config) (fun _ label => label ≠ .approve w) initial run := by
    refine .of_forall fun label hlabel _ => ?_
    rintro rfl
    exact hoperator hlabel
  have hinv : Kept config s ∧ ((s.status w).passed → s.Approves w) := by
    refine Lib.exec_inv (I := fun t => Kept config t ∧ ((t.status w).passed → t.Approves w))
      ⟨initial_kept, fun hp => Bool.noConfusion (show false = true from hp)⟩ ?_ halong h
    rintro t label t' ⟨ht, happroves⟩ hlabel hstep
    have hstepped := ht.step hstep
    refine ⟨hstepped.kept, fun hp => ?_⟩
    rcases hstepped.passed w hlabel hp with hp | ha
    · exact (happroves hp).mono hstepped.grows
    · exact ha
  exact hinv.2 hpassed

theorem autoLocked_spec (h : Lib.exec (step config) initial run = some s)
    (hlocked : autoLocked config run w = true) : s.status w ≠ .rejected ∧ s.Approves w := by
  rw [autoLocked, Bool.and_eq_true, any_eq_true] at hlocked
  obtain ⟨⟨before, hbefore, hany⟩, hoperator⟩ := hlocked
  obtain ⟨t, ht, hstatus⟩ := (Option.any_eq_true _ _).1 hany
  obtain ⟨after, rfl⟩ := (mem_inits _ _).1 hbefore
  have hexec := h
  rw [Lib.exec_append, ht, Option.bind_some] at hexec
  have hearly : (t.status w).early = false := by
    rw [of_decide_eq_true hstatus]
    rfl
  have hpassed := WithdrawalStatus.passed_of_not_early ((kept_run ht).stays_locked hexec hearly)
  refine ⟨hpassed.2, approves_run h ?_ hpassed.1⟩
  simpa using hoperator

/-- If what is selected from a list without repetition ends in the part before, all of it is there. -/
theorem filter_of_last {α : Type} {p : α → Bool} {before after rows : List α} {last : α}
    (hnodup : (before ++ after).Nodup) (hrows : (before ++ after).filter p = rows ++ [last])
    (hlast : last ∈ before) : before.filter p = rows ++ [last] := by
  rw [filter_append] at hrows
  rcases eq_nil_or_concat (after.filter p) with hnil | ⟨rest, x, hx⟩
  · rwa [hnil, append_nil] at hrows
  · rw [concat_eq_append] at hx
    rw [hx, ← append_assoc] at hrows
    obtain ⟨-, hsame⟩ := append_inj' hrows rfl
    cases hsame
    have hafter : last ∈ after.filter p := by
      rw [hx]
      exact mem_append_right _ (mem_singleton.2 rfl)
    exact absurd rfl ((nodup_append.1 hnodup).2.2 last hlast last
      (mem_filter.1 hafter).1)

variable {rows : List (WithdrawalId × Details)}

/-- Fewer of the same rows have the smaller total. -/
theorem total_le {rows' : List (WithdrawalId × Details)} (hnodup : rows.Nodup)
    (hsub : rows ⊆ rows') : total rows ≤ total rows' := by
  obtain ⟨rows'', hperm, hsublist⟩ := subperm_of_subset hnodup hsub
  unfold total
  rw [← (hperm.map _).sum_eq]
  refine (hsublist.map _).sum_le_sum fun amount hamount => ?_
  obtain ⟨row, -, rfl⟩ := mem_map.1 hamount
  exact row.2.positive.le

/-- What the rule sums is the total of the rows it is shown. -/
theorem sumSince_eq_total {input : RiskInput}
    (h : input.recentWithdrawals = rows.map s.historyEntry) (cutoff : Int) :
    Risk.sumSince input cutoff = total (rows.filter fun row =>
      cutoff ≤ s.createdAt row.1 && row.2.asset = input.asset) := by
  unfold Risk.sumSince total
  rw [h, filter_map, map_map]
  rfl

/-- The evaluation behind an approval: everything in the window that was inserted no later than it
and has not been rejected fits the limit together with it. -/
theorem Evaluated.within {e : Evaluation} {limits : Risk.AssetLimits} (h : Evaluated config s e)
    (hverdict : e.decision.verdict = .approve)
    (hlimits : config.policy.assetLimits e.input.asset = some limits) (hnodup : rows.Nodup)
    (hrows : ∀ read, read <+: s.desk.withdrawals → e.withdrawal ∈ read.map Prod.fst → rows ⊆ read)
    (hcount : ∀ row ∈ rows, row.2.userId = e.input.userId ∧ row.2.asset = e.input.asset ∧
      e.input.now - day ≤ s.createdAt row.1 ∧ s.status row.1 ≠ .rejected) :
    total rows + e.input.amount ≤ limits.dailyLimit := by
  obtain ⟨read, listed, hread, hw, hlisted, hrecent, hall⟩ := h.seen
  have happrove : ∀ rule ∈ Risk.rules, (rule e.input config.policy).verdict = .approve := by
    rw [h.decision] at hverdict
    exact Risk.evaluate_approve_iff.1 hverdict
  have hlimit := Risk.dailyLimitRule_approve hlimits
    (happrove Risk.dailyLimitRule (by simp only [Risk.rules, mem_cons, true_or, or_true]))
  have hle : total rows ≤ Risk.sumSince e.input (e.input.now - day) := by
    rw [sumSince_eq_total hrecent]
    refine total_le hnodup fun row hrow => ?_
    obtain ⟨huser, hasset, hsince, hstatus⟩ := hcount row hrow
    refine mem_filter.2 ⟨hall row (hrows read hread hw hrow) huser hsince hstatus, ?_⟩
    simp only [hsince, hasset, decide_true, Bool.and_self]
  omega

theorem mem_locked {asset : AssetKey} {from_ to_ : Int}
    {row : WithdrawalId × Details} (h : row ∈ locked config run s userId asset from_ to_) :
    row ∈ s.desk.withdrawals ∧ row.2.userId = userId ∧ row.2.asset = asset ∧
      row.2.purpose = .external ∧ from_ ≤ s.createdAt row.1 ∧ s.createdAt row.1 ≤ to_ ∧
      autoLocked config run row.1 = true := by
  obtain ⟨hrow, hp⟩ := mem_filter.1 h
  simp only [Bool.and_eq_true, decide_eq_true_eq] at hp
  exact ⟨hrow, hp.1.1.1.1.1, hp.1.1.1.1.2, hp.1.1.1.2, hp.1.1.2, hp.1.2, hp.2⟩

/-- A read that found the last of them found all of them. -/
theorem Kept.locked_subset (h : Kept config s)
    {asset : AssetKey} {from_ to_ : Int} {read : List (WithdrawalId × Details)}
    {last : WithdrawalId × Details}
    (hrows : locked config run s userId asset from_ to_ = rows ++ [last])
    (hread : read <+: s.desk.withdrawals) (hlast : last.1 ∈ read.map Prod.fst) :
    rows ++ [last] ⊆ read := by
  have hmem : last ∈ s.desk.withdrawals := by
    have hlocked : last ∈ locked config run s userId asset from_ to_ := by
      rw [hrows]
      exact mem_append_right _ (mem_singleton.2 rfl)
    exact (mem_locked hlocked).1
  obtain ⟨row, hrow, hfst⟩ := mem_map.1 hlast
  cases inj_on_of_nodup_map h.distinct (hread.subset hrow) hmem hfst
  have hnodup : s.desk.withdrawals.Nodup := h.distinct.of_map _
  obtain ⟨after, hafter⟩ := hread
  rw [locked, ← hafter] at hrows
  rw [← hafter] at hnodup
  rw [← filter_of_last hnodup hrows hrow]
  exact filter_subset_self _

/-- Of any number of concurrent requests, what a user's withdrawals of an asset created within 24
hours less `delay` lock without an operator is within the daily limit. -/
theorem rolling_cap {run : List Label} {limits : Risk.AssetLimits} {asset : AssetKey}
    {delay : Int} (h : Lib.exec (step config) initial run = some s)
    (hlimits : config.policy.assetLimits asset = some limits)
    (hdelay : ∀ e ∈ s.decisions, e.input.now ≤ s.createdAt e.withdrawal + delay)
    (userId : UserId) (from_ : Int) :
    total (locked config run s userId asset from_ (from_ + (day - delay))) ≤
      max limits.dailyLimit 0 := by
  have hkept := kept_run h
  rcases eq_nil_or_concat (locked config run s userId asset from_ (from_ + (day - delay))) with
    hnil | ⟨rows, last, hrows⟩
  · rw [hnil]
    exact le_max_right _ _
  · -- the one inserted last decides
    rw [concat_eq_append] at hrows
    have hmem : ∀ row ∈ rows ++ [last],
        row ∈ locked config run s userId asset from_ (from_ + (day - delay)) := by
      rw [hrows]
      exact fun _ => id
    obtain ⟨hlast, huser, hasset, hpurpose, -, hto, hauto⟩ := mem_locked
      (hmem last (mem_append_right _ (mem_singleton.2 rfl)))
    have hsame : ∀ d, (last.1, d) ∈ s.desk.withdrawals → d = last.2 := fun d hd =>
      congrArg Prod.snd (inj_on_of_nodup_map hkept.distinct hd hlast rfl)
    rcases (autoLocked_spec h hauto).2 with ⟨e, he, hw, hverdict⟩ | ⟨d, hd, hne⟩
    · have hev := hkept.decisions e he
      have hnow := hdelay e he
      obtain ⟨d, hd, huser', hasset', hamount⟩ := hev.row
      rw [hw] at hd hnow
      cases hsame d hd
      have hbound := hev.within hverdict (by rw [hasset', hasset, hlimits])
        (hrows ▸ (hkept.distinct.of_map _).filter _)
        (fun read hread hin => hkept.locked_subset hrows hread (hw ▸ hin)) ?_
      · have hpositive := last.2.positive
        rw [hrows]
        refine le_trans ?_ (le_max_left _ _)
        omega
      · intro row hrow
        obtain ⟨-, huser'', hasset'', -, hfrom, -, hauto'⟩ := mem_locked (hmem row hrow)
        refine ⟨by rw [huser'', huser', huser], by rw [hasset'', hasset', hasset], ?_,
          (autoLocked_spec h hauto').1⟩
        omega
    · rw [hsame d hd] at hne
      exact absurd hpurpose hne

open Desk (usdc)

/-- A daily limit of 100. -/
def sampleConfig : Config where
  desk := Desk.sampleConfig
  policy :=
    { supportedAssets := [usdc]
      assetLimits := fun asset => if asset = usdc then some ⟨100, 100, 1000⟩ else none
      velocityWindowMinutes := 60
      velocityMaxCount := 10
      reviewNewDestinations := false
      manualReviewAboveUsdMicros := none
      knownDestinationWindowDays := 30 }

def thirty (id : String) : Details := ⟨id, "alice", usdc, 30, .external, by decide⟩

/-- Withdrawals 7 and 8, of 30 each, as both requests read them. -/
def both : List WithdrawalHistoryEntry := [⟨30, usdc, 0⟩, ⟨30, usdc, 5⟩]

/-- The request evaluates with both in view, is approved and locks. -/
def approved (w : WithdrawalId) (d : Details) : List Label :=
  [.call (.readPrior w d "out" 8 .active both) .ok,
    .call (.evaluate w d "out" 8 .active both []) (.check (.ok false) none),
    .call (.conclude w .approve) .ok, .call (.lock w) .ok]

/-- Two requests are inserted, both read, and both lock. -/
def racing : List Label :=
  [.post Desk.funding,
    .request 7 (thirty "w7") ⟨"out", "k7", 0⟩, .call (.evaluating 7 (thirty "w7") "out") .ok,
    .call (.readUser 7 (thirty "w7") "out") (.user 8 .active),
    .request 8 (thirty "w8") ⟨"out", "k8", 5⟩, .call (.evaluating 8 (thirty "w8") "out") .ok,
    .call (.readUser 8 (thirty "w8") "out") (.user 8 .active),
    .call (.readRecent 8 (thirty "w8") "out" 8 .active) .ok,
    .call (.readRecent 7 (thirty "w7") "out" 8 .active) .ok] ++
  approved 7 (thirty "w7") ++ approved 8 (thirty "w8")

theorem rolling_cap_racing : ∃ s, Lib.exec (step sampleConfig) initial racing = some s ∧
    (locked sampleConfig racing s "alice" usdc 0 (0 + (day - 8))).map Prod.fst = [7, 8] ∧
    total (locked sampleConfig racing s "alice" usdc 0 (0 + (day - 8))) ≤ max 100 0 := by
  obtain ⟨s, hs, hlocked, hdelay⟩ : ∃ s, Lib.exec (step sampleConfig) initial racing = some s ∧
      (locked sampleConfig racing s "alice" usdc 0 (0 + (day - 8))).map Prod.fst = [7, 8] ∧
      ∀ e ∈ s.decisions, e.input.now ≤ s.createdAt e.withdrawal + 8 :=
    Lib.exec_reaches (by decide +kernel)
  have hlimits : sampleConfig.policy.assetLimits usdc = some ⟨100, 100, 1000⟩ := by
    simp only [sampleConfig, if_true]
  exact ⟨s, hs, hlocked, rolling_cap hs hlimits hdelay "alice" 0⟩

end Service
end AtlasCex.Withdrawals
