import AtlasCex.Gateway.Requests
/-!
# An order that is failed as never seen is never in the book

The lookup knows placements. A placement that was not journaled when the lookup was asked can still
be journaled later, but only while its signed timestamp is in the engine's window: `deadline` is the
last moment. `failNeverSeen` waits for the window and a margin, and the margin is what there is for
the time between the row and the signature, between the clock check and the journal, and between the
lookup and the sweeper's look at its own clock (`Lags`).

The replacement of an amend enters the book without a placement, and the lookup never has it:
`replacement_failed_while_live`.
-/
namespace AtlasCex.Gateway

open List
open Lib (exec Along exec_inv exec_reaches)
open Matching (OrderId Command Engine SequencedCommand)
open Server (scratch lastPlacement placementOf)
open Trading (Order)

/-- The command puts the order before the matching engine. -/
def Introduces (engine : Engine) (id : OrderId) : Command → Prop
  | .place orderId _ => orderId = id
  | .amend orderId newOrderId _ _ => newOrderId = id ∧ engine.book.contains orderId = true
  | .cancel _ | .setStatus _ => False

def Introduced (config : Config) (journal : List SequencedCommand) (id : OrderId) : Prop :=
  ∃ before c after, journal = before ++ c :: after ∧
    Introduces (scratch config.engine.market before) id c.command

/-- How late the steps between two clocks may come: they fit the margin, less the second the
timestamp is rounded to. -/
structure Lags where
  /-- From the row to the signature. -/
  sign : Nat
  /-- From the engine's clock check to its journal. -/
  queue : Nat
  /-- From the lookup's answer to the sweeper's clock. -/
  sweep : Nat
  fits : sign + queue + sweep + 1000 ≤ skewMarginMs

/-- Each step comes in time, and no replacement is concluded to be never seen. -/
def Prompt (lags : Lags) (s : State) : Label → Prop
  | .send (.place order _) _ at_ => ∀ createdAt ∈ s.createdAt order.id, at_ ≤ createdAt + lags.sign
  | .submit _ verifiedAt _ _ => s.now ≤ verifiedAt + lags.queue
  | .conclude (.answered id _ .neverSeen lookedAt) at_ =>
    at_ ≤ lookedAt + lags.sweep ∧ id ∉ s.replacements
  | _ => True

/-! ## The invariant -/

/-- From here on no placement of the order is journaled. -/
def deadline (config : Config) (lags : Lags) (createdAt : Nat) : Nat :=
  createdAt + lags.sign + config.toleranceSeconds * 1000 + 1000 + lags.queue

structure Quiet (config : Config) (lags : Lags) (s : State) (id : OrderId) (createdAt : Nat) :
    Prop where
  late : deadline config lags createdAt ≤ s.now
  unplaced : ∀ c ∈ s.journal, ∀ request, c.command ≠ .place id request

variable {config : Config} {lags : Lags} {s t : State}

def CommandOk (s : State) : Command → Prop
  | .place id request => request.clientOrderId = id
  | .amend _ newOrderId _ _ => newOrderId ∈ s.replacements
  | .cancel _ | .setStatus _ => True

/-- A placement is signed in time. -/
structure RequestOk (lags : Lags) (s : State) (request : Request) : Prop where
  command : CommandOk s request.command
  signed : ∀ id placement, request.command = .place id placement → ∃ createdAt,
    s.createdAt id = some createdAt ∧ request.timestamp * 1000 ≤ createdAt + lags.sign

def CallOk (s : State) : Call → Prop
  | .place order _ => (s.createdAt order.id).isSome = true
  | .held _ _ order _ _ | .ready _ _ order _ => order.id ∈ s.replacements
  | .placed .. | .amend _ | .amended .. | .replaced .. => True

def SweepOk (config : Config) (lags : Lags) (s : State) : Sweep → Prop
  | .claimed id createdAt => s.createdAt id = some createdAt
  | .answered id createdAt outcome lookedAt => s.createdAt id = some createdAt ∧
    (outcome = .neverSeen → deadline config lags createdAt ≤ lookedAt →
      Quiet config lags s id createdAt)
  | .fetched .. => True

/-- The order was failed for good reason. -/
def Failed (config : Config) (lags : Lags) (s : State) (id : OrderId) : Prop :=
  id ∉ s.replacements ∧ ∃ createdAt, s.createdAt id = some createdAt ∧
    Quiet config lags s id createdAt

structure Inv (config : Config) (lags : Lags) (s : State) : Prop where
  calls : ∀ call ∈ s.calls, CallOk s call
  sweeps : ∀ sweep ∈ s.sweeps, SweepOk config lags s sweep
  inFlight : ∀ request ∈ s.inFlight, RequestOk lags s request
  queue : ∀ entry ∈ s.queue, RequestOk lags s entry.1 ∧
    entry.2 / 1000 ≤ entry.1.timestamp + config.toleranceSeconds
  journal : ∀ c ∈ s.journal, CommandOk s c.command
  failed : ∀ id ∈ s.neverReceived, Failed config lags s id

/-- What every step keeps. -/
structure Grows (config : Config) (lags : Lags) (s t : State) : Prop where
  createdAt : ∀ id createdAt, s.createdAt id = some createdAt → t.createdAt id = some createdAt
  replacements : s.replacements ⊆ t.replacements
  fresh : ∀ id ∈ t.replacements, id ∈ s.replacements ∨ s.createdAt id = none
  quiet : ∀ id createdAt, s.createdAt id = some createdAt → Quiet config lags s id createdAt →
    Quiet config lags t id createdAt

theorem Grows.of_eq (hcreated : t.createdAt = s.createdAt) (hreplacements : t.replacements = s.replacements)
    (hnow : s.now ≤ t.now) (hjournal : t.journal = s.journal) : Grows config lags s t where
  createdAt _ _ h := hcreated ▸ h
  replacements _ hid := hreplacements ▸ hid
  fresh _ hid := .inl (hreplacements ▸ hid)
  quiet _ _ _ h := ⟨h.late.trans hnow, fun c hc => h.unplaced c (hjournal ▸ hc)⟩

section Mono

variable (hg : Grows config lags s t)
include hg

theorem CommandOk.mono {command : Command} (h : CommandOk s command) : CommandOk t command := by
  cases command with
  | place => exact h
  | amend => exact hg.replacements h
  | cancel | setStatus => trivial

theorem RequestOk.mono {request : Request} (h : RequestOk lags s request) : RequestOk lags t request where
  command := h.command.mono hg
  signed id placement hplace := by
    obtain ⟨createdAt, hcreated, hle⟩ := h.signed id placement hplace
    exact ⟨createdAt, hg.createdAt id createdAt hcreated, hle⟩

theorem CallOk.mono {call : Call} (h : CallOk s call) : CallOk t call := by
  cases call with
  | place order terms =>
    obtain ⟨createdAt, hcreated⟩ := Option.isSome_iff_exists.1 h
    exact Option.isSome_iff_exists.2 ⟨createdAt, hg.createdAt _ _ hcreated⟩
  | held | ready => exact hg.replacements h
  | placed | amend | amended | replaced => trivial

theorem SweepOk.mono {sweep : Sweep} (h : SweepOk config lags s sweep) : SweepOk config lags t sweep := by
  cases sweep with
  | claimed id createdAt => exact hg.createdAt id createdAt h
  | answered id createdAt outcome lookedAt =>
    obtain ⟨hcreated, hquiet⟩ := h
    exact ⟨hg.createdAt id createdAt hcreated,
      fun hnever hlate => hg.quiet id createdAt hcreated (hquiet hnever hlate)⟩
  | fetched => trivial

theorem Failed.mono {id : OrderId} (h : Failed config lags s id) : Failed config lags t id := by
  obtain ⟨hplain, createdAt, hcreated, hquiet⟩ := h
  refine ⟨fun hid => ?_, createdAt, hg.createdAt id createdAt hcreated,
    hg.quiet id createdAt hcreated hquiet⟩
  obtain hold | hnew := hg.fresh id hid
  · exact hplain hold
  · rw [hcreated] at hnew
    cases hnew

end Mono

/-- What is new is checked, the rest is as it was. -/
theorem Inv.frame (h : Inv config lags s) (hg : Grows config lags s t)
    (hcalls : ∀ call ∈ t.calls, call ∈ s.calls ∨ CallOk t call)
    (hsweeps : ∀ sweep ∈ t.sweeps, sweep ∈ s.sweeps ∨ SweepOk config lags t sweep)
    (hinFlight : ∀ request ∈ t.inFlight, request ∈ s.inFlight ∨ RequestOk lags t request)
    (hqueue : ∀ entry ∈ t.queue, entry ∈ s.queue ∨ RequestOk lags t entry.1 ∧
      entry.2 / 1000 ≤ entry.1.timestamp + config.toleranceSeconds)
    (hjournal : ∀ c ∈ t.journal, c ∈ s.journal ∨ CommandOk t c.command)
    (hfailed : ∀ id ∈ t.neverReceived, id ∈ s.neverReceived ∨ Failed config lags t id) :
    Inv config lags t where
  calls call hcall := (hcalls call hcall).elim (fun hold => (h.calls call hold).mono hg) id
  sweeps sweep hsweep := (hsweeps sweep hsweep).elim (fun hold => (h.sweeps sweep hold).mono hg) id
  inFlight request hrequest :=
    (hinFlight request hrequest).elim (fun hold => (h.inFlight request hold).mono hg) id
  queue entry hentry := by
    obtain hold | hnew := hqueue entry hentry
    · obtain ⟨hok, hwindow⟩ := h.queue entry hold
      exact ⟨hok.mono hg, hwindow⟩
    · exact hnew
  journal c hc := (hjournal c hc).elim (fun hold => (h.journal c hold).mono hg) id
  failed id hid := by
    obtain hold | hnew := hfailed id hid
    · exact (h.failed id hold).mono hg
    · exact hnew

/-- Rows, replacements and the journal are as they were, and no order is failed. -/
theorem Inv.calm (h : Inv config lags s) (hcreated : t.createdAt = s.createdAt)
    (hreplacements : t.replacements = s.replacements) (hnow : s.now ≤ t.now)
    (hjournal : t.journal = s.journal) (hfailed : t.neverReceived = s.neverReceived)
    (hcalls : ∀ call ∈ t.calls, call ∈ s.calls ∨ CallOk t call)
    (hsweeps : ∀ sweep ∈ t.sweeps, sweep ∈ s.sweeps ∨ SweepOk config lags t sweep)
    (hinFlight : ∀ request ∈ t.inFlight, request ∈ s.inFlight ∨ RequestOk lags t request)
    (hqueue : ∀ entry ∈ t.queue, entry ∈ s.queue ∨ RequestOk lags t entry.1 ∧
      entry.2 / 1000 ≤ entry.1.timestamp + config.toleranceSeconds) : Inv config lags t :=
  h.frame (.of_eq hcreated hreplacements hnow hjournal) hcalls hsweeps hinFlight hqueue
    (fun _ hc => .inl (hjournal ▸ hc)) (fun _ hid => .inl (hfailed ▸ hid))

theorem Inv.transact (h : Inv config lags s) (label : Option Trading.Label) :
    Inv config lags (s.transact label) :=
  h.calm rfl rfl (Nat.le_refl _) rfl rfl (fun _ => .inl) (fun _ => .inl) (fun _ => .inl) (fun _ => .inl)

/-- The calls change. -/
theorem Inv.setCalls (h : Inv config lags s) {calls : List Call}
    (hcalls : ∀ call ∈ calls, call ∈ s.calls ∨ CallOk s call) :
    Inv config lags { s with calls := calls } := by
  have hg : Grows config lags s { s with calls := calls } := .of_eq rfl rfl (Nat.le_refl _) rfl
  exact h.frame hg (fun call hcall => (hcalls call hcall).imp_right (CallOk.mono hg)) (fun _ => .inl)
    (fun _ => .inl) (fun _ => .inl) (fun _ => .inl) (fun _ => .inl)

theorem Inv.setSweeps (h : Inv config lags s) {sweeps : List Sweep}
    (hsweeps : ∀ sweep ∈ sweeps, sweep ∈ s.sweeps ∨ SweepOk config lags s sweep) :
    Inv config lags { s with sweeps := sweeps } := by
  have hg : Grows config lags s { s with sweeps := sweeps } := .of_eq rfl rfl (Nat.le_refl _) rfl
  exact h.frame hg (fun _ => .inl) (fun sweep hsweep => (hsweeps sweep hsweep).imp_right (SweepOk.mono hg))
    (fun _ => .inl) (fun _ => .inl) (fun _ => .inl) (fun _ => .inl)

theorem Inv.drop (h : Inv config lags s) (call : Call) : Inv config lags (s.drop call) :=
  h.setCalls fun _ hcall => .inl (mem_of_mem_erase hcall)

theorem Inv.dropSweep (h : Inv config lags s) (sweep : Sweep) : Inv config lags (s.dropSweep sweep) :=
  h.setSweeps fun _ hsweep => .inl (mem_of_mem_erase hsweep)

variable {call : Call}

/-- A call is added. -/
theorem Inv.addCall (h : Inv config lags s) (hok : CallOk s call) :
    Inv config lags { s with calls := call :: s.calls } := by
  refine h.setCalls fun other hother => ?_
  obtain rfl | hother := mem_cons.1 hother
  · exact .inr hok
  · exact .inl hother

theorem Inv.addSweep (h : Inv config lags s) {sweep : Sweep} (hok : SweepOk config lags s sweep) :
    Inv config lags { s with sweeps := sweep :: s.sweeps } := by
  refine h.setSweeps fun other hother => ?_
  obtain rfl | hother := mem_cons.1 hother
  · exact .inr hok
  · exact .inl hother

/-! ## Rows -/

variable {at_ : Nat}

theorem create_ok {order created : Order} (h : s.create order at_ = some (created, t)) :
    s.createdAt order.id = none ∧ created.id = order.id ∧ ∃ books, t = { s with
      books := books, createdAt := Function.update s.createdAt order.id (some at_) } := by
  simp only [State.create, Option.ite_none_right_eq_some, Option.bind_eq_some_iff,
    Option.map_eq_some_iff, Prod.mk.injEq] at h
  obtain ⟨⟨-, hnew, -⟩, books, -, found, hfound, rfl, rfl⟩ := h
  exact ⟨hnew, by simpa using find?_some hfound, books, rfl⟩

variable {id : OrderId}

/-- A row is added, for a replacement or not. -/
theorem Grows.create (books : Trading.Books) (at_ : Nat) (replacements : List OrderId)
    (hnew : s.createdAt id = none) (hold : s.replacements ⊆ replacements)
    (hreplacements : ∀ other ∈ replacements, other ∈ s.replacements ∨ other = id) :
    Grows config lags s { s with
      books := books
      createdAt := Function.update s.createdAt id (some at_)
      replacements := replacements } where
  createdAt other createdAt h := by
    have hother : other ≠ id := by
      rintro rfl
      rw [hnew] at h
      cases h
    simpa [Function.update_of_ne hother] using h
  replacements := hold
  fresh other hother := by
    obtain hold | rfl := hreplacements other hother
    · exact .inl hold
    · exact .inr hnew
  quiet _ _ _ h := ⟨h.late, h.unplaced⟩

theorem Inv.create (h : Inv config lags s) (books : Trading.Books) (at_ : Nat)
    (replacements : List OrderId) (hnew : s.createdAt id = none) (hold : s.replacements ⊆ replacements)
    (hreplacements : ∀ other ∈ replacements, other ∈ s.replacements ∨ other = id) :
    Inv config lags { s with
      books := books
      createdAt := Function.update s.createdAt id (some at_)
      replacements := replacements } :=
  h.frame (.create books at_ replacements hnew hold hreplacements) (fun _ => .inl) (fun _ => .inl) (fun _ => .inl)
    (fun _ => .inl) (fun _ => .inl) (fun _ => .inl)

/-! ## Calls -/

theorem Inv.pendCancel (h : Inv config lags s) {old current order : Order} {price attempt : Nat}
    (hcall : Call.held old current order price attempt ∈ s.calls) :
    Inv config lags (s.pendCancel old current order price attempt) := by
  have horder : order.id ∈ s.replacements := h.calls _ hcall
  have hdrop := h.drop (.held old current order price attempt)
  unfold State.pendCancel
  simp only
  split
  · split
    · rename_i moved books _
      have hbooks : Inv config lags { s.drop (.held old current order price attempt) with
          books := books } :=
        hdrop.calm rfl rfl (Nat.le_refl _) rfl rfl (fun _ => .inl) (fun _ => .inl) (fun _ => .inl)
          (fun _ => .inl)
      exact hbooks.addCall horder
    · exact hdrop.addCall horder
  · exact hdrop.addCall horder

theorem Inv.post (h : Inv config lags s) {requestId : String} {command : Command}
    (hpost : s.post requestId at_ command = some t) (hcommand : CommandOk s command)
    (hsigned : ∀ id placement, command = .place id placement → ∃ createdAt,
      s.createdAt id = some createdAt ∧ at_ ≤ createdAt + lags.sign) : Inv config lags t := by
  simp only [State.post, Option.ite_none_right_eq_some, Option.some.injEq] at hpost
  obtain ⟨-, rfl⟩ := hpost
  refine h.calm rfl rfl (Nat.le_refl _) rfl rfl (fun _ => .inl) (fun _ => .inl) ?_ (fun _ => .inl)
  intro request hrequest
  obtain rfl | hrequest := mem_cons.1 hrequest
  · refine .inr ⟨hcommand, fun id placement hplace => ?_⟩
    obtain ⟨createdAt, hcreated, hle⟩ := hsigned id placement hplace
    exact ⟨createdAt, hcreated, (Nat.div_mul_le_self _ _).trans hle⟩
  · exact .inl hrequest

theorem Inv.send (h : Inv config lags s) {requestId : String}
    (hprompt : Prompt lags s (.send call requestId at_))
    (hstep : s.step config (.send call requestId at_) = some t) : Inv config lags t := by
  simp only [State.step, Option.ite_none_right_eq_some] at hstep
  obtain ⟨hcall, hstep⟩ := hstep
  have hok := h.calls call hcall
  have hdrop := h.drop call
  cases call with
  | place order terms =>
    obtain ⟨u, hpost, rfl⟩ := Option.map_eq_some_iff.1 hstep
    refine (hdrop.post hpost rfl ?_).addCall trivial
    rintro _ _ ⟨⟩
    obtain ⟨createdAt, hcreated⟩ := Option.isSome_iff_exists.1 hok
    exact ⟨createdAt, hcreated, hprompt createdAt hcreated⟩
  | ready old pendingOld order price =>
    obtain ⟨u, hpost, rfl⟩ := Option.map_eq_some_iff.1 hstep
    exact (hdrop.post hpost hok nofun).addCall trivial
  | placed | amend | held | amended | replaced => cases hstep

theorem Inv.receive (h : Inv config lags s) {result : EngineResult}
    (hreceive : s.receive call result = some t) : Inv config lags t := by
  cases call with
  | placed order requestId =>
    cases result with
    | ok seq events =>
      cases hreceive
      exact h.transact _
    | refused =>
      cases hreceive
      exact h.transact _
    | ambiguous =>
      cases hreceive
      exact h
  | amended old pendingOld order requestId =>
    cases result with
    | ok seq events =>
      cases hreceive
      exact (h.transact _).addCall trivial
    | refused =>
      cases hreceive
      exact h.transact _
    | ambiguous =>
      cases hreceive
      exact h
  | place | amend | held | ready | replaced => cases hreceive

/-! ## The engine -/

variable {request : Request}

theorem Inv.deliver (h : Inv config lags s)
    (hstep : s.step config (.deliver request at_) = some t) : Inv config lags t := by
  simp only [State.step, Option.ite_none_right_eq_some] at hstep
  obtain ⟨⟨hrequest, -⟩, hstep⟩ := hstep
  have hok := h.inFlight request hrequest
  split at hstep
  · rename_i hwindow
    cases hstep
    refine h.calm rfl rfl (Nat.le_refl _) rfl rfl (fun _ => .inl) (fun _ => .inl)
      (fun _ hother => .inl (mem_of_mem_erase hother)) fun entry hentry => ?_
    obtain rfl | hentry := mem_cons.1 hentry
    · exact .inr ⟨⟨hok.command, hok.signed⟩, hwindow.1⟩
    · exact .inl hentry
  · cases hstep
    exact h.calm rfl rfl (Nat.le_refl _) rfl rfl (fun _ => .inl) (fun _ => .inl)
      (fun _ hother => .inl (mem_of_mem_erase hother)) (fun _ => .inl)

theorem submit_journal (rt : Server.Runtime) (timestampMs : Int) (command : Command) (writes : Bool) :
    (rt.submitWithLevels timestampMs command writes).2.disk.journal =
      rt.disk.journal ++ [⟨rt.nextSeq, timestampMs, command⟩] :=
  (Server.applied (rt.append timestampMs command).2 _ writes).journal

/-- A placement is journaled before its deadline. -/
theorem RequestOk.before_deadline {verifiedAt createdAt : Nat}
    {placement : Matching.OrderRequest} (h : RequestOk lags s request)
    (hplace : request.command = .place id placement) (hcreated : s.createdAt id = some createdAt)
    (hwindow : verifiedAt / 1000 ≤ request.timestamp + config.toleranceSeconds)
    (hprompt : s.now ≤ verifiedAt + lags.queue) : s.now < deadline config lags createdAt := by
  obtain ⟨_, hcreated', hsigned⟩ := h.signed id placement hplace
  obtain rfl := Option.some.inj (hcreated.symm.trans hcreated')
  unfold deadline
  omega

theorem Inv.submit (h : Inv config lags s) {verifiedAt : Nat}
    {writes published : Bool} (hprompt : s.now ≤ verifiedAt + lags.queue)
    (hstep : s.step config (.submit request verifiedAt writes published) = some t) :
    Inv config lags t := by
  simp only [State.step, Option.ite_none_right_eq_some, Option.some.injEq] at hstep
  obtain ⟨hentry, rfl⟩ := hstep
  obtain ⟨hok, hwindow⟩ := h.queue _ hentry
  have hjournal := submit_journal s.runtime request.timestampMs request.command writes
  refine h.frame ⟨fun _ _ => id, List.Subset.refl _, fun _ => .inl, ?_⟩ (fun _ => .inl) (fun _ => .inl)
    (fun _ => .inl) (fun _ hother => .inl (mem_of_mem_erase hother)) ?_ (fun _ => .inl)
  · intro id createdAt hcreated hquiet
    refine ⟨hquiet.late, fun c hc placement hplace => ?_⟩
    rw [State.journal, hjournal] at hc
    obtain hc | hc := mem_append.1 hc
    · exact hquiet.unplaced c hc placement hplace
    · -- too late for a placement
      obtain rfl := mem_singleton.1 hc
      exact absurd hquiet.late (Nat.not_le.2 (hok.before_deadline hplace hcreated hwindow hprompt))
  · intro c hc
    rw [State.journal, hjournal] at hc
    obtain hc | hc := mem_append.1 hc
    · exact .inl hc
    · obtain rfl := mem_singleton.1 hc
      exact .inr hok.command

/-! ## The sweeper -/

/-- What the lookup has not seen has no placement in the journal. -/
theorem Inv.lookup_unplaced (h : Inv config lags s) (hnever : s.lookup id = .neverSeen) :
    ∀ c ∈ s.journal, ∀ placement, c.command ≠ .place id placement := by
  intro c hc placement hplace
  have hentries : lastPlacement id s.journal = none := by
    rw [← Server.rebuild_entries]
    cases hentry : (s.journal.foldl Server.LookupIndex.insertPlacement ∅)[id]? with
    | none => rfl
    | some entry => simp [State.lookup, Server.LookupIndex.get, hentry] at hnever
  have hclient : placement.clientOrderId = id := by
    have hok := h.journal c hc
    rwa [hplace] at hok
  have hmade : placementOf id c = some (c.seq, id) := by
    simp [placementOf, hplace, hclient]
  rw [Server.lastPlacement_none] at hentries
  exact absurd (hentries c hc) (by simp [hmade])

theorem Inv.lookup (h : Inv config lags s) {createdAt : Nat}
    (hcreated : s.createdAt id = some createdAt) :
    SweepOk config lags s (.answered id createdAt (s.lookup id) s.now) :=
  ⟨hcreated, fun hnever hlate => ⟨hlate, h.lookup_unplaced hnever⟩⟩

theorem Inv.failNeverSeen (h : Inv config lags s) (hfailed : Failed config lags s id) :
    Inv config lags (s.failNeverSeen id) := by
  unfold State.failNeverSeen
  split
  · exact h
  · split
    · refine h.frame (.of_eq rfl rfl (Nat.le_refl _) rfl) (fun _ => .inl) (fun _ => .inl) (fun _ => .inl)
        (fun _ => .inl) (fun _ => .inl) fun other hother => ?_
      obtain rfl | hother := mem_cons.1 hother
      · exact .inr ⟨hfailed.1, by
          obtain ⟨createdAt, hcreated, hquiet⟩ := hfailed.2
          exact ⟨createdAt, hcreated, hquiet.late, hquiet.unplaced⟩⟩
      · exact .inl hother
    · exact h.calm rfl rfl (Nat.le_refl _) rfl rfl (fun _ => .inl) (fun _ => .inl) (fun _ => .inl)
        (fun _ => .inl)

/-- The age check leaves the lags. -/
theorem Inv.conclude (h : Inv config lags s) {sweep : Sweep}
    (hok : SweepOk config lags s sweep) (hprompt : Prompt lags s (.conclude sweep at_))
    (hconclude : s.conclude config at_ sweep = some t) : Inv config lags t := by
  cases sweep with
  | claimed => cases hconclude
  | fetched id events =>
    cases hconclude
    exact h.transact _
  | answered id createdAt outcome lookedAt =>
    cases outcome with
    | seen seq orderId =>
      cases hconclude
      exact h.addSweep trivial
    | rebuilding =>
      cases hconclude
      exact h
    | neverSeen =>
      simp only [State.conclude] at hconclude
      split at hconclude
      · cases hconclude
        exact h
      · rename_i hage
        cases hconclude
        obtain ⟨hcreated, hquiet⟩ := hok
        obtain ⟨hlag, hplain⟩ := hprompt
        have hlate : deadline config lags createdAt ≤ lookedAt := by
          have hfits := lags.fits
          unfold Config.conclusiveAfterMs at hage
          unfold deadline
          omega
        exact h.failNeverSeen ⟨hplain, createdAt, hcreated, hquiet rfl hlate⟩

/-! ## Runs -/

theorem Inv.step {label : Label} (h : Inv config lags s) (hprompt : Prompt lags s label)
    (hstep : s.step config label = some t) : Inv config lags t := by
  have hle := Nat.le_refl s.now
  cases label with
  | tick ms =>
    cases hstep
    exact h.calm rfl rfl (Nat.le_add_right _ _) rfl rfl (fun _ => .inl) (fun _ => .inl) (fun _ => .inl)
      (fun _ => .inl)
  | place order terms at_ =>
    obtain ⟨⟨created, u⟩, hcreate, rfl⟩ := Option.map_eq_some_iff.1 hstep
    obtain ⟨hnew, hid, books, rfl⟩ := create_ok hcreate
    have hrow := h.create books at_ s.replacements hnew (List.Subset.refl _) fun _ => .inl
    exact hrow.addCall (by simp [CallOk, hid])
  | readOld userId id =>
    simp only [State.step] at hstep
    split at hstep
    · cases hstep
    · simp only [Option.ite_none_right_eq_some, Option.some.injEq] at hstep
      obtain ⟨-, rfl⟩ := hstep
      exact h.addCall trivial
  | replace old order price at_ =>
    simp only [State.step, Option.ite_none_right_eq_some] at hstep
    obtain ⟨-, hstep⟩ := hstep
    obtain ⟨⟨created, u⟩, hcreate, rfl⟩ := Option.map_eq_some_iff.1 hstep
    obtain ⟨hnew, hid, books, rfl⟩ := create_ok hcreate
    have hrow := (h.drop (.amend old)).create books at_ (created.id :: s.replacements) hnew
      (subset_cons_self _ _)
      fun other hother => (mem_cons.1 hother).symm.imp_right (·.trans hid)
    exact hrow.addCall mem_cons_self
  | pendCancel old current order price attempt =>
    obtain ⟨hcall, ⟨⟩⟩ := Option.ite_none_right_eq_some.1 hstep
    exact h.pendCancel hcall
  | send call requestId at_ => exact h.send hprompt hstep
  | receive call result =>
    simp only [State.step, Option.ite_none_right_eq_some] at hstep
    exact (h.drop call).receive hstep.2
  | finish order events =>
    obtain ⟨-, ⟨⟩⟩ := Option.ite_none_right_eq_some.1 hstep
    exact (h.drop _).transact _
  | abandon call =>
    obtain ⟨-, ⟨⟩⟩ := Option.ite_none_right_eq_some.1 hstep
    exact h.drop call
  | command requestId at_ command =>
    cases command with
    | cancel orderId => exact h.post hstep trivial nofun
    | setStatus status => exact h.post hstep trivial nofun
    | place | amend => cases hstep
  | transact label =>
    cases label with
    | createWithHold => cases hstep
    | finalizeUnfilled | moveResting | settle =>
      cases hstep
      exact h.transact _
  | deliver request at_ => exact h.deliver hstep
  | refuse request =>
    obtain ⟨-, ⟨⟩⟩ := Option.ite_none_right_eq_some.1 hstep
    exact h.calm rfl rfl hle rfl rfl (fun _ => .inl) (fun _ => .inl)
      (fun _ hother => .inl (mem_of_mem_erase hother)) (fun _ => .inl)
  | lose request =>
    obtain ⟨-, ⟨⟩⟩ := Option.ite_none_right_eq_some.1 hstep
    exact h.calm rfl rfl hle rfl rfl (fun _ => .inl) (fun _ => .inl)
      (fun _ hother => .inl (mem_of_mem_erase hother)) (fun _ => .inl)
  | submit request verifiedAt writes published => exact h.submit hprompt hstep
  | drop request verifiedAt =>
    obtain ⟨-, ⟨⟩⟩ := Option.ite_none_right_eq_some.1 hstep
    exact h.calm rfl rfl hle rfl rfl (fun _ => .inl) (fun _ => .inl) (fun _ => .inl)
      fun _ hother => .inl (mem_of_mem_erase hother)
  | restart =>
    -- the journal is what survives
    obtain ⟨runtime, hrecover, rfl⟩ := Option.map_eq_some_iff.1 hstep
    obtain ⟨commands, -, rfl⟩ := Option.map_eq_some_iff.1 hrecover
    exact h.calm rfl rfl hle rfl rfl (fun _ => .inl) (fun _ => .inl) (fun _ => .inl) nofun
  | claim id at_ =>
    simp only [State.step] at hstep
    split at hstep
    · cases hstep
    · rename_i createdAt hcreated
      simp only [Option.ite_none_right_eq_some, Option.some.injEq] at hstep
      obtain ⟨-, rfl⟩ := hstep
      refine h.calm rfl rfl hle rfl rfl (fun _ => .inl) (fun sweep hsweep => ?_) (fun _ => .inl)
        (fun _ => .inl)
      obtain rfl | hsweep := mem_cons.1 hsweep
      · exact .inr hcreated
      · exact .inl hsweep
  | lookup id createdAt =>
    obtain ⟨hsweep, ⟨⟩⟩ := Option.ite_none_right_eq_some.1 hstep
    have hdrop := h.dropSweep (.claimed id createdAt)
    exact hdrop.addSweep (hdrop.lookup (h.sweeps _ hsweep))
  | conclude sweep at_ =>
    simp only [State.step, Option.ite_none_right_eq_some] at hstep
    obtain ⟨⟨hsweep, -⟩, hstep⟩ := hstep
    have hg : Grows config lags s (s.dropSweep sweep) := .of_eq rfl rfl hle rfl
    exact (h.dropSweep sweep).conclude ((h.sweeps sweep hsweep).mono hg) hprompt hstep
  | giveUp sweep =>
    obtain ⟨-, ⟨⟩⟩ := Option.ite_none_right_eq_some.1 hstep
    exact h.dropSweep sweep

theorem Inv.initial (ledger : List Ledger.LedgerTransaction) :
    Inv config lags (.initial config ledger) where
  calls _ h := by cases h
  sweeps _ h := by cases h
  inFlight _ h := by cases h
  queue _ h := by cases h
  journal _ h := by cases h
  failed _ h := by cases h

theorem Inv.not_introduced (h : Inv config lags s) (hid : id ∈ s.neverReceived) :
    ¬ Introduced config s.journal id := by
  rintro ⟨before, c, after, hjournal, hintroduces⟩
  obtain ⟨hplain, createdAt, -, hquiet⟩ := h.failed id hid
  have hc : c ∈ s.journal := by simp [hjournal]
  have hok := h.journal c hc
  have hunplaced := hquiet.unplaced c hc
  cases hcommand : c.command with
  | place orderId request =>
    rw [hcommand] at hintroduces
    obtain rfl : orderId = id := hintroduces
    exact hunplaced request hcommand
  | amend orderId newOrderId price qty =>
    rw [hcommand] at hintroduces hok
    obtain ⟨rfl, -⟩ := hintroduces
    exact hplain hok
  | cancel | setStatus =>
    rw [hcommand] at hintroduces
    exact hintroduces

/-- In a run of prompt steps, an order that is failed as never seen is in no command that introduces
it, then and ever after. -/
theorem never_seen_never_introduced {ledger : List Ledger.LedgerTransaction} {labels : List Label}
    (hrun : exec (State.step config) (.initial config ledger) labels = some s)
    (hprompt : Along (State.step config) (Prompt lags) (.initial config ledger) labels) :
    ∀ id ∈ s.neverReceived, ¬ Introduced config s.journal id := fun _ hid =>
  (exec_inv (Inv.initial ledger) (fun _ _ _ h hok hstep => h.step hok hstep) hprompt
    hrun).not_introduced hid

/-! ## The replacement of an amend -/

instance (lags : Lags) (s : State) : DecidablePred (Prompt lags s)
  | .send (.place order _) _ at_ =>
    inferInstanceAs (Decidable (∀ createdAt ∈ s.createdAt order.id, at_ ≤ createdAt + lags.sign))
  | .submit _ verifiedAt _ _ => inferInstanceAs (Decidable (s.now ≤ verifiedAt + lags.queue))
  | .conclude (.answered id _ .neverSeen lookedAt) at_ =>
    inferInstanceAs (Decidable (at_ ≤ lookedAt + lags.sweep ∧ id ∉ s.replacements))
  | .send (.placed ..) _ _ | .send (.amend _) _ _ | .send (.held ..) _ _ | .send (.ready ..) _ _
  | .send (.amended ..) _ _ | .send (.replaced ..) _ _ | .conclude (.claimed ..) _
  | .conclude (.fetched ..) _ | .conclude (.answered _ _ (.seen ..) _) _
  | .conclude (.answered _ _ .rebuilding _) _ | .tick _ | .place .. | .readOld .. | .replace ..
  | .pendCancel .. | .receive .. | .finish .. | .abandon _ | .command .. | .transact _ | .deliver ..
  | .refuse _ | .lose _ | .drop .. | .restart | .claim .. | .lookup .. | .giveUp _ => .isTrue trivial

def sampleConfig : Config := ⟨Server.sampleConfig, 300, 5000, 100⟩

def quote : Ledger.AssetKey := ⟨"devnet", "USDC"⟩

def aliceFunded : List Ledger.LedgerTransaction :=
  [⟨.allocation, "withdrawal", "w1",
    [Ledger.debit ⟨none, quote, .clearingAssets⟩ quote 5000,
      Ledger.credit (Ledger.userTradingAvailable "alice" quote) quote 5000]⟩]

/-- A buy of one unit for alice. -/
def aliceBuys (id clientOrderId : String) (status : Trading.OrderStatus) (engineSeq : Option Nat) : Order :=
  ⟨id, "alice", clientOrderId, "SOL-USDC", .buy, 1000000000, 0, status, quote, 1010, engineSeq, none⟩

def atThousand : Terms := ⟨.gtc, 1000, false⟩

/-- An order is placed and answered for; the answer to its amend is lost. -/
def amendedUnheard : List Label :=
  let first := aliceBuys "o1" "c1" .pendingEngine none
  let old := aliceBuys "o1" "c1" .open (some 1)
  let pendingOld := aliceBuys "o1" "c1" .pendingCancel (some 1)
  let second := aliceBuys "o2" "c2" .pendingEngine none
  let placement : Request := ⟨"r1", 0, 0, placeCommand first atThousand⟩
  let amendment : Request := ⟨"r2", 0, 0, .amend "o1" "o2" 1010 1000000000⟩
  [.place first atThousand 0, .send (.place first atThousand) "r1" 0, .deliver placement 0,
    .submit placement 0 true true,
    .receive (.placed first "r1") (.ok 1 [.accepted 1 "o1" 1000000000]),
    .readOld "alice" "o1", .replace old second 1010 0, .pendCancel old old second 1010 0,
    .send (.ready old pendingOld second 1010) "r2" 0, .deliver amendment 0,
    .submit amendment 0 true true, .receive (.amended old pendingOld second "r2") .ambiguous]

def swept (id : OrderId) (at_ : Nat) : List Label :=
  [.tick at_, .claim id at_, .lookup id 0, .conclude (.answered id 0 .neverSeen at_) at_]

/-- The sweeper fails the replacement and releases its hold, while it rests in the book. -/
theorem replacement_failed_while_live :
    ∃ s, exec (State.step sampleConfig) (.initial sampleConfig aliceFunded)
        (amendedUnheard ++ swept "o2" 400000) = some s ∧
      "o2" ∈ s.neverReceived ∧ ((s.books.findById "o2").map (·.status) = some .failed ∧
        s.books.outstandingHold "o2" = some 0) ∧
      s.runtime.engine.book.contains "o2" = true ∧ Introduced sampleConfig s.journal "o2" := by
  obtain ⟨s, hs, hnever, hreleased, hlive, hjournal⟩ :
      ∃ s, exec (State.step sampleConfig) (.initial sampleConfig aliceFunded)
        (amendedUnheard ++ swept "o2" 400000) = some s ∧
      "o2" ∈ s.neverReceived ∧ ((s.books.findById "o2").map (·.status) = some .failed ∧
        s.books.outstandingHold "o2" = some 0) ∧
      s.runtime.engine.book.contains "o2" = true ∧
      s.journal = [⟨1, 0, placeCommand (aliceBuys "o1" "c1" .pendingEngine none) atThousand⟩] ++
        ⟨2, 0, .amend "o1" "o2" 1010 1000000000⟩ :: [] := exec_reaches (by decide +kernel)
  exact ⟨s, hs, hnever, hreleased, hlive, _, _, _, hjournal, rfl, by decide +kernel⟩

/-- A placement that is lost on the way. -/
def placedUnheard : List Label :=
  let first := aliceBuys "o1" "c1" .pendingEngine none
  [.place first atThousand 0, .send (.place first atThousand) "r1" 0,
    .lose ⟨"r1", 0, 0, placeCommand first atThousand⟩, .receive (.placed first "r1") .ambiguous]

theorem never_seen_never_introduced_lost :
    ∃ s, exec (State.step sampleConfig) (.initial sampleConfig aliceFunded)
        (placedUnheard ++ swept "o1" 400000) = some s ∧
      "o1" ∈ s.neverReceived ∧ ¬ Introduced sampleConfig s.journal "o1" := by
  obtain ⟨s, hs, hnever⟩ : ∃ s, exec (State.step sampleConfig) (.initial sampleConfig aliceFunded)
      (placedUnheard ++ swept "o1" 400000) = some s ∧ "o1" ∈ s.neverReceived :=
    exec_reaches (by decide +kernel)
  let lags : Lags := ⟨20000, 20000, 19000, by decide⟩
  have hprompt : Along (State.step sampleConfig) (Prompt lags) (.initial sampleConfig aliceFunded)
      (placedUnheard ++ swept "o1" 400000) := by decide +kernel
  exact ⟨s, hs, hnever, never_seen_never_introduced hs hprompt "o1" hnever⟩

end AtlasCex.Gateway
