import AtlasCex.Deposits.Cursors
import Mathlib.Data.Fintype.EquivFin
/-!
# What a page of transfers takes to be done with

A poll of the deposit address asks for the rent minimum in the asset of the first transfer of the
page. `getMinimumAccountBalance` refuses every asset but the native one, so a page that starts with a
token transfer throws before anything is credited, and the cursor stays where it is.

* `credit_runs` : one transfer of a page, from the count to its row.
* `loop_runs` : the rest of a page, down to the cursor.
* `Traced.work` : nothing else gets a row, and only from a wallet that is active.
* `page_completes_iff` : which pages are recorded and passed.
* `token_first_blocks` : one with a token transfer first is not, whatever the adapter answers.
-/
namespace AtlasCex.Deposits

open List
open Lib (exec)

variable {tokenAccount : Address → Bool} {config : Config}

/-- The poll a task belongs to. -/
def Task.poll : Task → Option Poll
  | .fetch poll | .parse poll _ _ _ | .count poll _ _ _ _ | .advance poll _ _ => some poll
  | .credit _ _ next => next.map (·.poll)

/-- A step of one poll, by an adapter that answers with this rent minimum. -/
def OfPoll (poll : Poll) (lamports : Nat) (_ : State tokenAccount) (label : Label tokenAccount) :
    Prop :=
  ∃ task choice, label = .work task choice ∧ task.poll = some poll ∧
    ∀ answer, choice = .rent answer → answer = lamports

/-- The poll goes on from one state to another, and nothing else happens. -/
abbrev Polls (config : Config) (poll : Poll) (lamports : Nat) (s t : State tokenAccount) : Prop :=
  Lib.Reaches (State.step config) (OfPoll poll lamports) s t

variable {poll : Poll} {lamports : Nat}

theorem Polls.take {s t : State tokenAccount} {task : Task} (choice : Choice) (htask : task ∈ s.tasks)
    (hpoll : task.poll = some poll) (hrent : ∀ answer, choice = .rent answer → answer = lamports)
    (h : ({ s with tasks := s.tasks.erase task } : State tokenAccount).work config task choice =
      some t) : Polls config poll lamports s t := by
  refine Lib.Reaches.one (i := .work task choice) ⟨task, choice, rfl, hpoll, hrent⟩ ?_
  simp only [State.step, htask, if_true]
  exact h

variable {others : List Task}

theorem Polls.next {s t : State tokenAccount} {task : Task} (choice : Choice)
    (hpoll : task.poll = some poll) (hrent : ∀ answer, choice = .rent answer → answer = lamports)
    (h : ({ s with tasks := others } : State tokenAccount).work config task choice = some t) :
    Polls config poll lamports { s with tasks := task :: others } t := by
  refine Polls.take choice mem_cons_self hpoll hrent ?_
  rw [erase_cons_head]
  exact h

/-! ## One transfer -/

def TransferEvent.key (event : TransferEvent) : DepositKey :=
  (event.chain, event.txReference, event.instructionIndex)

def Held (db : Db) (key : DepositKey) : Prop := ∃ d ∈ db.deposits, d.key = key

/-- The recipient is an address of ours, and its wallet active. -/
def Creditable (db : Db) (event : TransferEvent) : Prop :=
  ∃ a w, db.findByAddress event.chain event.recipient = some a ∧
    db.findWalletById a.walletId = some w ∧ w.active = true

variable {event : TransferEvent} {db db' : Db}

theorem creditable_iff :
    ((db.findByAddress event.chain event.recipient).any fun a =>
      (db.findWalletById a.walletId).any (·.active)) = true ↔ Creditable db event := by
  simp only [Creditable, Option.any_eq_true, ← exists_and_left]

instance (db : Db) (event : TransferEvent) : Decidable (Creditable db event) :=
  decidable_of_iff _ creditable_iff

theorem Creditable.congr (haddresses : db'.addresses = db.addresses)
    (hwallets : db'.wallets = db.wallets) : Creditable db' event ↔ Creditable db event := by
  simp only [Creditable, Db.findByAddress, Db.findWalletById, haddresses, hwallets]

/-- What handling a transfer does to the tables. -/
structure Handled (event : TransferEvent) (db db' : Db) : Prop where
  addresses : db'.addresses = db.addresses
  wallets : db'.wallets = db.wallets
  deposits : db.deposits ⊆ db'.deposits
  recorded : Creditable db event → Held db' event.key

theorem Handled.refl (h : ¬ Creditable db event) : Handled event db db :=
  ⟨rfl, rfl, List.Subset.refl _, fun hcreditable => absurd hcreditable h⟩

theorem exists_fresh (used : List String) : ∃ id, ∀ x ∈ used, x ≠ id := by
  obtain ⟨id, hid⟩ := Infinite.exists_notMem_finset used.toFinset
  refine ⟨id, fun x hx heq => hid ?_⟩
  rw [mem_toFinset, ← heq]
  exact hx

/-- The transaction of a positive amount goes through, under ids that are fresh. -/
theorem transaction_total (db : Db) (allowed : Ledger.AssetKey → Bool)
    (hpos : 0 < event.amount) (rent : Nat) (address : AddressRow) (wallet : WalletRow) :
    ∃ depositId transactionId db' outcome,
      db.creditStep allowed depositId transactionId (.transaction event rent address wallet) =
        some (db', .back outcome) := by
  obtain ⟨depositId, hdeposit⟩ := exists_fresh (db.deposits.map (·.id))
  obtain ⟨transactionId, hledger⟩ := exists_fresh (db.ledger.map (·.1))
  have hfresh : ¬ (db.deposits.any (·.id = depositId) ∨ db.ledger.any (·.1 = transactionId)) := by
    simp only [any_eq_true, decide_eq_true_eq, not_or, not_exists, not_and]
    exact ⟨fun d hd => hdeposit _ (mem_map_of_mem hd),
      fun p hp => hledger _ (mem_map_of_mem hp)⟩
  obtain ⟨posting, hposting⟩ := Ledger.postDeposit_total depositId wallet.userId event.asset
    (Int.natCast_pos.2 hpos) (Int.natCast_nonneg (min rent event.amount))
    (Int.ofNat_le.2 (Nat.min_le_right _ _))
  refine ⟨depositId, transactionId, ?_⟩
  simp only [Db.creditStep, if_neg hfresh, hposting]
  split
  · split <;> exact ⟨_, _, rfl⟩
  · split <;> exact ⟨_, _, rfl⟩

variable {depositId transactionId : String} {outcome : CreditOutcome}

/-- A transaction that goes through handles the transfer. -/
theorem Handled.of_transaction {allowed : Ledger.AssetKey → Bool}
    {rent : Nat} {address : AddressRow} {wallet : WalletRow}
    (h : db.creditStep allowed depositId transactionId (.transaction event rent address wallet) =
      some (db', .back outcome)) : Handled event db db' := by
  have hrecorded : Held db' event.key := by
    rcases (Db.creditStep_back h).2 with ⟨_, _, ⟨⟩, _⟩ | ⟨_, _, _, ⟨⟩, _⟩ | hrow
    exact hrow
  cases Db.creditStep_writes h with
  | nothing => exact ⟨rfl, rfl, List.Subset.refl _, fun _ => hrecorded⟩
  | ignored => exact ⟨rfl, rfl, subset_append_left _ _, fun _ => hrecorded⟩
  | credited => exact ⟨rfl, rfl, subset_append_left _ _, fun _ => hrecorded⟩

/-- What comes after a transfer that was handled. -/
theorem proceed_back {cluster : Cluster} {next : Next}
    (h : outcome ≠ .notFinal) : proceed cluster (some next) (.back outcome) =
      loop next.poll next.rest next.rent (some (next.event.txReference, next.event.position)) := by
  cases outcome with
  | notFinal => exact absurd rfl h
  | credited _ => rfl
  | duplicate => rfl
  | ignored _ => rfl

theorem Polls.credit (s : State tokenAccount) (cluster : Cluster) (next : Next) {call : Credit}
    {out : CreditNext}
    (h : s.db.creditStep (config.allowed cluster) depositId transactionId call = some (db', out)) :
    Polls config next.poll lamports { s with tasks := .credit cluster call (some next) :: others }
      { s with db := db', tasks := proceed cluster (some next) out ++ others } := by
  refine Polls.next (.ids depositId transactionId) rfl (by rintro _ ⟨⟩) ?_
  simp only [State.work, h]
  rfl

/-- A call that comes back leaves the page to go on. -/
theorem Polls.back (s : State tokenAccount) (cluster : Cluster) (next : Next) {call : Credit}
    (h : s.db.creditStep (config.allowed cluster) depositId transactionId call =
      some (db', .back outcome)) :
    Polls config next.poll lamports { s with tasks := .credit cluster call (some next) :: others }
      { s with
        db := db'
        tasks := loop next.poll next.rest next.rent
          (some (next.event.txReference, next.event.position)) ++ others } := by
  have hback : Polls config next.poll lamports
      { s with tasks := .credit cluster call (some next) :: others }
      { s with db := db', tasks := proceed cluster (some next) (.back outcome) ++ others } :=
    Polls.credit s cluster next h
  rwa [proceed_back (Db.creditStep_back h).1] at hback

/-- A transfer that is final is handled, and the page goes on after it. -/
theorem credit_runs (config : Config) (poll : Poll) (lamports : Nat) (s : State tokenAccount)
    (hfinal : event.confirmation = .final) (hpos : 0 < event.amount) (rest : List TransferEvent)
    (rent : Nat) (highest : Option (Signature × Nat)) (others : List Task) :
    ∃ db', Handled event s.db db' ∧
      Polls config poll lamports { s with tasks := .count poll event rest rent highest :: others }
        { s with
          db := db'
          tasks := loop poll rest rent (some (event.txReference, event.position)) ++ others } := by
  let next : Next := ⟨poll, event, rest, rent, highest⟩
  let applicable :=
    if s.db.deposits.countP (·.addressId = poll.addressId) = 0 then rent else 0
  have hcount : Polls config poll lamports
      { s with tasks := .count poll event rest rent highest :: others }
      { s with tasks := .credit poll.cluster (.address event applicable) (some next) :: others } := by
    refine Polls.next .go rfl (by rintro _ ⟨⟩) ?_
    simp only [State.work, creditTransfer, hfinal, ne_eq, not_true, if_false]
    rfl
  cases ha : s.db.findByAddress event.chain event.recipient with
  | none =>
    have hback : s.db.creditStep (config.allowed poll.cluster) "" "" (.address event applicable) =
        some (s.db, .back (.ignored "address_not_owned")) := by
      simp only [Db.creditStep, ha]
    have hhandled : Handled event s.db s.db := by
      refine .refl ?_
      rintro ⟨a, w, ha', -⟩
      rw [ha] at ha'
      cases ha'
    exact ⟨s.db, hhandled, hcount.trans (Polls.back s _ next hback)⟩
  | some a =>
    have haddress : s.db.creditStep (config.allowed poll.cluster) "" "" (.address event applicable) =
        some (s.db, .on (.wallet event applicable a)) := by
      simp only [Db.creditStep, ha]
    replace hcount := hcount.trans (Polls.credit s _ next haddress)
    by_cases hwallet : ∃ w, s.db.findWalletById a.walletId = some w ∧ w.active = true
    · obtain ⟨w, hw, hactive⟩ := hwallet
      have hon : s.db.creditStep (config.allowed poll.cluster) "" "" (.wallet event applicable a) =
          some (s.db, .on (.transaction event applicable a w)) := by
        simp only [Db.creditStep, hw, hactive, if_true]
      replace hcount := hcount.trans (Polls.credit s _ next hon)
      obtain ⟨depositId, transactionId, db', outcome, hback⟩ :=
        transaction_total s.db (config.allowed poll.cluster) hpos applicable a w
      exact ⟨db', .of_transaction hback, hcount.trans (Polls.back s _ next hback)⟩
    · obtain ⟨reason, hback⟩ : ∃ reason,
          s.db.creditStep (config.allowed poll.cluster) "" "" (.wallet event applicable a) =
            some (s.db, .back (.ignored reason)) := by
        simp only [Db.creditStep]
        cases hw : s.db.findWalletById a.walletId with
        | none => exact ⟨_, rfl⟩
        | some w => exact ⟨_, if_neg fun hactive => hwallet ⟨w, hw, hactive⟩⟩
      have hhandled : Handled event s.db s.db := by
        refine .refl ?_
        rintro ⟨a', w, ha', hw⟩
        rw [ha] at ha'
        cases ha'
        exact hwallet ⟨w, hw⟩
      exact ⟨s.db, hhandled, hcount.trans (Polls.back s _ next hback)⟩

/-! ## A page -/

theorem cursorOf_advance (db : Db) (addressId : String) (scanAddress : Address)
    (signature : Signature) (position : Option Nat) :
    (db.advance addressId scanAddress signature position).cursorOf addressId scanAddress =
      some signature := by
  by_cases h : db.hasCursor addressId scanAddress
  · obtain ⟨c, hfind⟩ := Option.isSome_iff_exists.1 (find?_isSome.2 (any_eq_true.1 h))
    have hmatch : c.addressId = addressId ∧ c.scanAddress = scanAddress := by
      simpa using find?_some hfind
    -- the rows keep their keys
    have hkeys : ((fun c : CursorRow => decide (c.addressId = addressId ∧ c.scanAddress = scanAddress)) ∘
        fun c => if c.addressId = addressId ∧ c.scanAddress = scanAddress then
          ⟨addressId, scanAddress, some signature, position⟩ else c) =
        fun c => decide (c.addressId = addressId ∧ c.scanAddress = scanAddress) := by
      funext c
      by_cases hc : c.addressId = addressId ∧ c.scanAddress = scanAddress
      · simp only [Function.comp_apply, if_pos hc, and_self, decide_true, decide_eq_true hc]
      · simp only [Function.comp_apply, if_neg hc]
    simp only [Db.advance, h, if_true, Db.cursorOf, find?_map, hkeys, hfind, Option.map_some,
      hmatch, and_self, Option.bind_some]
  · have hnone : db.cursors.find? (fun c => c.addressId = addressId ∧ c.scanAddress = scanAddress) =
        none := by
      refine find?_eq_none.2 fun c hc hmatch => h (any_eq_true.2 ⟨c, hc, hmatch⟩)
    simp only [Db.advance, h, Bool.false_eq_true, if_false, Db.cursorOf, find?_append, hnone,
      Option.none_or]
    simp

/-- A transfer of a page of finalized transactions. -/
structure Settled (event : TransferEvent) : Prop where
  final : event.confirmation = .final
  positive : 0 < event.amount

/-- What is left of a page is recorded, and the cursor follows. -/
theorem loop_runs {events : List TransferEvent} (hevents : ∀ e ∈ events, Settled e) {rent : Nat}
    : ∀ (s : State tokenAccount) (highest : Option (Signature × Nat)),
    ∃ db', Polls config poll lamports { s with tasks := loop poll events rent highest ++ others }
        { s with db := db', tasks := others } ∧
      s.db.deposits ⊆ db'.deposits ∧
      (∀ e ∈ events, Creditable s.db e → Held db' e.key) ∧
      ∀ signature ∈ (events.getLast?.map (·.txReference)).or (highest.map (·.1)),
        db'.cursorOf poll.addressId poll.scanAddress = some signature := by
  induction events with
  | nil =>
    intro s highest
    cases highest with
    | none =>
      exact ⟨s.db, .refl _, List.Subset.refl _, fun _ he => absurd he not_mem_nil,
        fun _ h => by cases h⟩
    | some h =>
      refine ⟨s.db.advance poll.addressId poll.scanAddress h.1 (some h.2),
        Polls.next .go rfl (by rintro _ ⟨⟩) rfl, ?_, fun _ he => absurd he not_mem_nil, ?_⟩
      · rw [(advance_same _ _ _ _ _).2.2.1]
        exact List.Subset.refl _
      · rintro _ ⟨⟩
        exact cursorOf_advance _ _ _ _ _
  | cons event rest ih =>
    intro s highest
    have hevent := hevents event mem_cons_self
    obtain ⟨db₁, hhandled, hpolls₁⟩ := credit_runs config poll lamports s hevent.final hevent.positive rest
      rent highest others
    obtain ⟨db', hpolls, hdeposits, hrecorded, hcursor⟩ :=
      ih (fun e he => hevents e (mem_cons_of_mem _ he)) { s with db := db₁ }
        (some (event.txReference, event.position))
    refine ⟨db', hpolls₁.trans hpolls, List.Subset.trans hhandled.deposits hdeposits, ?_, ?_⟩
    · intro e he hcreditable
      rcases mem_cons.1 he with rfl | he
      · obtain ⟨d, hd, hkey⟩ := hhandled.recorded hcreditable
        exact ⟨d, hdeposits hd, hkey⟩
      · exact hrecorded e he ((Creditable.congr hhandled.addresses hhandled.wallets).2 hcreditable)
    · intro signature hsignature
      refine hcursor signature ?_
      cases rest with
      | nil => exact hsignature
      | cons e rest => exact hsignature

/-- The call at its page, with nothing else in flight: it ends, every transfer to the owner has its row,
and the cursor has passed the page. -/
def Completes (config : Config) (s : State tokenAccount) (poll : Poll) (lamports : Nat)
    (transfers : List TransferEvent) (nextCursor : Option Signature) : Prop :=
  ∃ t, Polls config poll lamports { s with tasks := [.parse poll [] transfers nextCursor] } t ∧
    t.tasks = [] ∧
    (∀ e ∈ transfers, e.recipient = poll.owner → Held t.db e.key) ∧
    (∀ e ∈ transfers.getLast?,
      t.db.cursorOf poll.addressId poll.scanAddress = some e.txReference) ∧
    (transfers = [] → nextCursor ≠ none → nextCursor ≠ poll.cursor →
      t.db.cursorOf poll.addressId poll.scanAddress = nextCursor)

theorem empty_page_completes (config : Config) (s : State tokenAccount) (poll : Poll) (lamports : Nat)
    (nextCursor : Option Signature) : Completes config s poll lamports [] nextCursor := by
  let touched := s.db.touch poll.addressId poll.scanAddress
  by_cases hmove : nextCursor ≠ none ∧ nextCursor ≠ poll.cursor
  · obtain ⟨signature, rfl⟩ := Option.ne_none_iff_exists'.1 hmove.1
    have htouch : Polls config poll lamports
        { s with tasks := [.parse poll [] [] (some signature)] }
        { s with db := touched, tasks := [.advance poll signature none] } := by
      refine Polls.next .go rfl (by rintro _ ⟨⟩) ?_
      simp only [State.work, hmove.2, ne_eq, not_false_eq_true, if_true]
      rfl
    have hadvance : Polls config poll lamports
        { s with db := touched, tasks := [.advance poll signature none] }
        { s with
          db := touched.advance poll.addressId poll.scanAddress signature none
          tasks := [] } :=
      Polls.next (s := { s with db := touched }) .go rfl (by rintro _ ⟨⟩) rfl
    refine ⟨_, htouch.trans hadvance, rfl, fun _ he => absurd he not_mem_nil, ?_, ?_⟩
    · rintro _ ⟨⟩
    · exact fun _ _ _ => cursorOf_advance _ _ _ _ _
  · have htouch : Polls config poll lamports { s with tasks := [.parse poll [] [] nextCursor] }
        { s with db := touched, tasks := [] } := by
      refine Polls.next .go rfl (by rintro _ ⟨⟩) ?_
      cases nextCursor with
      | none => rfl
      | some signature =>
        have hsame : some signature = poll.cursor :=
          not_not.1 fun hne => hmove ⟨Option.some_ne_none _, hne⟩
        exact if_neg (not_not.2 hsame)
    refine ⟨_, htouch, rfl, fun _ he => absurd he not_mem_nil, ?_, ?_⟩
    · rintro _ ⟨⟩
    · exact fun _ hsome hne => absurd ⟨hsome, hne⟩ hmove

theorem page_starts (config : Config) (s : State tokenAccount) (lamports : Nat)
    (rest : List TransferEvent) (nextCursor : Option Signature)
    (hfirst : poll.scanAddress = poll.owner → event.asset = nativeAssetKey poll.cluster) :
    ∃ rent, Polls config poll lamports
      { s with tasks := [.parse poll [] (event :: rest) nextCursor] }
      { s with tasks := loop poll (event :: rest) rent none ++ [] } := by
  by_cases hscan : poll.scanAddress = poll.owner
  · refine ⟨lamports, Polls.next (.rent lamports) rfl (by rintro _ ⟨⟩; rfl) ?_⟩
    simp only [State.work, hscan, if_true, hfirst hscan]
    rfl
  · refine ⟨0, Polls.next (.rent lamports) rfl (by rintro _ ⟨⟩; rfl) ?_⟩
    simp only [State.work, hscan, if_false]
    rfl

/-! ## What keeps a page -/

/-- Asking for the rent minimum of another asset throws, and there is nothing else to do. -/
theorem token_first_throws (config : Config) (s : State tokenAccount)
    {rest : List TransferEvent} {nextCursor : Option Signature}
    (hscan : poll.scanAddress = poll.owner) (hasset : event.asset ≠ nativeAssetKey poll.cluster)
    (choice : Choice) :
    s.step config (.work (.parse poll [] (event :: rest) nextCursor) choice) = none := by
  simp only [State.step]
  split
  · cases choice with
    | rent answer => simp only [State.work, hscan, if_true, if_neg hasset]
    | _ => rfl
  · rfl

theorem Completes.native_first {s : State tokenAccount} {rest : List TransferEvent}
    {nextCursor : Option Signature} (h : Completes config s poll lamports (event :: rest) nextCursor)
    (hscan : poll.scanAddress = poll.owner) : event.asset = nativeAssetKey poll.cluster := by
  by_contra hasset
  obtain ⟨t, hpolls, hdone, -⟩ := h
  have hstuck : t.tasks = [.parse poll [] (event :: rest) nextCursor] := by
    refine Lib.Reaches.keeps (I := fun t => t.tasks = [.parse poll [] (event :: rest) nextCursor])
      hpolls rfl ?_
    rintro u _ u' hu ⟨task, choice, rfl, -⟩ hstep
    by_cases htask : task ∈ u.tasks
    · rw [hu] at htask
      rw [mem_singleton.1 htask, token_first_throws config u hscan hasset] at hstep
      cases hstep
    · simp only [State.step, if_neg htask] at hstep
      cases hstep
  rw [hstuck] at hdone
  cases hdone

/-- A task that deals with the page and no other transfer, in tables with these addresses and wallets. -/
def Task.Of (db : Db) (page : List TransferEvent) : Task → Prop
  | .parse _ [] events _ => events ⊆ page
  | .count _ event rest _ _ => event ∈ page ∧ rest ⊆ page
  | .credit _ call next => call.event ∈ page ∧ (∀ n ∈ next, n.rest ⊆ page) ∧
    match call with
    | .address .. => True
    | .wallet event _ a => db.findByAddress event.chain event.recipient = some a
    | .transaction event .. => Creditable db event
  | .advance .. => True
  | .fetch _ | .parse _ (_ :: _) _ _ => False

variable {page : List TransferEvent} {s t : State tokenAccount} {task : Task} {choice : Choice}

theorem loop_of {rest : List TransferEvent} (hrest : rest ⊆ page) (rent : Nat)
    {highest : Option (Signature × Nat)} : ∀ task ∈ loop poll rest rent highest, task.Of db page := by
  intro task htask
  cases rest with
  | nil =>
    obtain ⟨_, _, -, rfl⟩ : ∃ signature position, highest = some (signature, position) ∧
        Task.advance poll signature (some position) = task := by
      simpa [loop] using htask
    trivial
  | cons event rest =>
    obtain rfl := mem_singleton.1 htask
    exact ⟨hrest mem_cons_self, fun e he => hrest (mem_cons_of_mem _ he)⟩

theorem back_of {cluster : Cluster} {next : Option Next} (hnext : ∀ n ∈ next, n.rest ⊆ page)
    (outcome : CreditOutcome) :
    ∀ task ∈ proceed cluster next (.back outcome), task.Of db page := by
  cases next with
  | none => exact fun _ h => absurd h not_mem_nil
  | some n =>
    cases outcome with
    | notFinal => exact loop_of (nil_subset _) n.rent
    | credited _ | duplicate | ignored _ => exact loop_of (hnext n rfl) n.rent

/-- A task of the page leaves tasks of the page. -/
theorem work_of (haddresses : s.db.addresses = db.addresses) (hwallets : s.db.wallets = db.wallets)
    (htask : task.Of db page) (h : s.work config task choice = some t) :
    ∀ task' ∈ t.tasks, task' ∈ s.tasks ∨ task'.Of db page := by
  have hspawn : ∀ {u : State tokenAccount} {left : List Task}, u.tasks = s.tasks →
      (∀ task' ∈ left, task'.Of db page) →
      ∀ task' ∈ (u.spawn left).tasks, task' ∈ s.tasks ∨ task'.Of db page := by
    intro u left hu hleft task' htask'
    rcases mem_append.1 htask' with hmem | hmem
    · exact .inr (hleft task' hmem)
    · exact .inl (hu ▸ hmem)
  cases task with
  | fetch poll => exact htask.elim
  | parse poll signatures transfers nextCursor =>
    cases signatures with
    | cons signature rest => exact htask.elim
    | nil =>
      cases transfers with
      | nil =>
        cases choice with
        | go =>
          cases nextCursor with
          | none =>
            cases h
            exact fun _ => .inl
          | some signature =>
            simp only [State.work] at h
            split at h <;> cases h
            · exact hspawn rfl fun _ hmem => by rw [mem_singleton.1 hmem]; trivial
            · exact fun _ => .inl
        | answer | rent | ids => cases h
      | cons event rest =>
        cases choice with
        | rent lamports =>
          simp only [State.work] at h
          split at h
          · split at h <;> cases h
            exact hspawn rfl (loop_of htask _)
          · cases h
            exact hspawn rfl (loop_of htask _)
        | go | answer | ids => cases h
  | count poll event rest rent highest =>
    cases choice with
    | go =>
      cases h
      refine hspawn rfl ?_
      simp only [creditTransfer]
      split
      · exact back_of (by rintro _ ⟨⟩; exact htask.2) _
      · intro task' hmem
        obtain rfl := mem_singleton.1 hmem
        exact ⟨htask.1, by rintro _ ⟨⟩; exact htask.2, trivial⟩
    | answer | rent | ids => cases h
  | credit cluster call next =>
    cases choice with
    | ids depositId transactionId =>
      obtain ⟨⟨db', out⟩, hcredit, rfl⟩ := Option.map_eq_some_iff.1 h
      obtain ⟨hevent, hnext, hcall⟩ := htask
      refine hspawn rfl ?_
      cases out with
      | back outcome => exact back_of hnext outcome
      | on c =>
        intro task' hmem
        obtain rfl := mem_singleton.1 hmem
        refine ⟨?_, hnext, ?_⟩
        · rw [Db.creditStep_event hcredit]
          exact hevent
        · obtain ⟨event, rent, a, rfl, rfl, hfind⟩ | ⟨event, rent, a, w, rfl, rfl, hfind, hactive⟩ :=
            Db.creditStep_cases hcredit
          · unfold Db.findByAddress at hfind ⊢
            rwa [haddresses] at hfind
          · refine ⟨a, w, hcall, ?_, hactive⟩
            unfold Db.findWalletById at hfind ⊢
            rwa [hwallets] at hfind
    | go | answer | rent => cases h
  | advance poll signature position =>
    cases choice with
    | go =>
      cases h
      exact fun _ => .inl
    | answer | rent | ids => cases h

/-- What the tables have gained is of the page. -/
structure Traced (db : Db) (page : List TransferEvent) (t : State tokenAccount) : Prop where
  addresses : t.db.addresses = db.addresses
  wallets : t.db.wallets = db.wallets
  rows : ∀ key, Held t.db key → Held db key ∨ ∃ e ∈ page, e.key = key ∧ Creditable db e
  tasks : ∀ task ∈ t.tasks, task.Of db page

theorem Traced.work (h : Traced db page s) (htask : task.Of db page)
    (hwork : s.work config task choice = some t) : Traced db page t := by
  have hworked := work_worked hwork
  refine ⟨hworked.addresses.trans h.addresses, hworked.wallets.trans h.wallets, ?_, ?_⟩
  · intro key hkey
    -- a row that is new was written by the transaction of a transfer of the page
    have hnew : ∀ {event : TransferEvent} {row : DepositRow},
        t.db.deposits = s.db.deposits ++ [row] → row.key = event.key → event ∈ page →
        Creditable db event → Held db key ∨ ∃ e ∈ page, e.key = key ∧ Creditable db e := by
      intro event row hdeposits hrow hevent hcreditable
      obtain ⟨d, hd, rfl⟩ := hkey
      rw [hdeposits] at hd
      rcases mem_append.1 hd with hd | hd
      · exact h.rows _ ⟨d, hd, rfl⟩
      · rw [mem_singleton.1 hd]
        exact .inr ⟨event, hevent, hrow.symm, hcreditable⟩
    obtain ⟨hdeposits, -⟩ | ⟨cluster, call, next, rfl, hwrites⟩ := hworked.books
    · unfold Held at hkey
      rw [hdeposits] at hkey
      exact h.rows key hkey
    · generalize hdb : t.db = db' at hwrites
      cases hwrites with
      | nothing =>
        rw [hdb] at hkey
        exact h.rows key hkey
      | ignored event rent address wallet id row fresh new row_eq =>
        refine hnew (by rw [hdb]) ?_ htask.1 htask.2.2
        rw [row_eq]
        rfl
      | credited event rent address wallet id transactionId row applicable posting fresh new unused
          row_eq =>
        refine hnew (by rw [hdb]) ?_ htask.1 htask.2.2
        rw [row_eq]
        rfl
  · intro task' htask'
    exact (work_of h.addresses h.wallets htask hwork task' htask').elim (h.tasks task') id

theorem Completes.held {transfers : List TransferEvent} {nextCursor : Option Signature}
    (h : Completes config s poll lamports transfers nextCursor) {e : TransferEvent} (he : e ∈ transfers)
    (howner : e.recipient = poll.owner) :
    Held s.db e.key ∨ ∃ e' ∈ transfers, e'.key = e.key ∧ Creditable s.db e' := by
  obtain ⟨t, hpolls, -, hrecorded, -⟩ := h
  have htraced : Traced s.db transfers t := by
    refine Lib.Reaches.keeps hpolls ⟨rfl, rfl, fun _ => .inl, ?_⟩ ?_
    · intro task htask
      rw [mem_singleton.1 htask]
      exact List.Subset.refl _
    · rintro u _ u' hu ⟨task, choice, rfl, -⟩ hstep
      simp only [State.step, Option.ite_none_right_eq_some] at hstep
      refine Traced.work (s := { u with tasks := u.tasks.erase task }) ?_ (hu.tasks _ hstep.1) hstep.2
      exact ⟨hu.addresses, hu.wallets, hu.rows, fun task' h => hu.tasks task' (mem_of_mem_erase h)⟩
  exact htraced.rows _ (hrecorded e he howner)

/-- **Which pages are done with.** The poll ends, with a row for every transfer to the owner and the
cursor past the page, iff the rent minimum is not asked for in another asset than the native one, and
the transfers to the owner have their rows or a wallet that is active. -/
theorem page_completes_iff (config : Config) (s : State tokenAccount) (poll : Poll) (lamports : Nat)
    {transfers : List TransferEvent} (nextCursor : Option Signature)
    (hpage : ∀ e ∈ transfers, Settled e) :
    Completes config s poll lamports transfers nextCursor ↔
      (poll.scanAddress = poll.owner →
        ∀ e ∈ transfers.head?, e.asset = nativeAssetKey poll.cluster) ∧
      ∀ e ∈ transfers, e.recipient = poll.owner →
        Held s.db e.key ∨ ∃ e' ∈ transfers, e'.key = e.key ∧ Creditable s.db e' := by
  cases transfers with
  | nil =>
    refine iff_of_true (empty_page_completes config s poll lamports nextCursor) ⟨?_, ?_⟩
    · rintro - _ ⟨⟩
    · exact fun _ he => absurd he not_mem_nil
  | cons event rest =>
    constructor
    · intro h
      refine ⟨?_, fun e he howner => h.held he howner⟩
      rintro hscan _ ⟨⟩
      exact h.native_first hscan
    · rintro ⟨hfirst, hrows⟩
      obtain ⟨rent, hstart⟩ := page_starts config s lamports rest nextCursor fun hscan =>
        hfirst hscan event rfl
      obtain ⟨db', hpolls, hdeposits, hrecorded, hcursor⟩ := loop_runs hpage s none
      refine ⟨_, hstart.trans hpolls, rfl, fun e he howner => ?_, fun e he => hcursor _ ?_, ?_⟩
      · obtain ⟨d, hd, hkey⟩ | ⟨e', he', hkey, hcreditable⟩ := hrows e he howner
        · exact ⟨d, hdeposits hd, hkey⟩
        · rw [← hkey]
          exact hrecorded e' he' hcreditable
      · rw [Option.mem_def.1 he]
        rfl
      · rintro ⟨⟩

def bobsPoll : Poll := ⟨.devnet, "a", "bob", none, "bob"⟩

/-- The poll of bob's address, up to the page. -/
def fetched (x : Executed isTokenAccount) : List (Label isTokenAccount) :=
  opened ++ settled "sig" x ++
    [.watch .devnet "a" "bob", .work (.fetch bobsPoll) .go,
      .work (.parse bobsPoll ["sig"] [] (some "sig")) (.answer (.parsed true))]

def nativeEvent : TransferEvent :=
  (⟨1, nativeAssetKey .devnet, "bob", 11⟩ : Transfer).event .devnet "sig" 7 none

theorem page_completes_payment : ∃ s t,
    exec (State.step sampleConfig) State.initial (fetched (payment 0 11)) = some s ∧
    s.tasks = [.parse bobsPoll [] [nativeEvent] (some "sig")] ∧
    Polls sampleConfig bobsPoll 10 s t ∧ t.tasks = [] ∧ Recorded t .devnet "sig" 1 ∧
    t.db.cursorOf "a" "bob" = some "sig" := by
  obtain ⟨s, hs, htasks, hcreditable⟩ : ∃ s,
      exec (State.step sampleConfig) State.initial (fetched (payment 0 11)) = some s ∧
      s.tasks = [.parse bobsPoll [] [nativeEvent] (some "sig")] ∧ Creditable s.db nativeEvent :=
    Lib.exec_reaches (by decide +kernel)
  have hpage : ∀ e ∈ [nativeEvent], Settled e := by
    intro e he
    rw [mem_singleton.1 he]
    exact ⟨rfl, by decide⟩
  have hcompletes := (page_completes_iff sampleConfig s bobsPoll 10 (some "sig") hpage).2
    ⟨by rintro - _ ⟨⟩; rfl, fun e he _ => .inr ⟨nativeEvent, mem_singleton_self _,
      by rw [mem_singleton.1 he], hcreditable⟩⟩
  obtain ⟨t, hpolls, hdone, hrecorded, hcursor, -⟩ := hcompletes
  rw [← htasks] at hpolls
  exact ⟨s, t, hs, htasks, hpolls, hdone, hrecorded _ (mem_singleton_self _) rfl, hcursor _ rfl⟩

/-! ## A token transfer first -/

/-- Bob's own account, and the tokens of bob, are in one transaction: five tokens arrive, no SOL. -/
def tokenPayment : Executed isTokenAccount where
  slot := 7
  accountKeys := ["alice", "tokens of bob", "bob"]
  failed := false
  preBalances := [9, 2, 1]
  postBalances := [9, 2, 1]
  preTokenBalances := [⟨1, "USDC", some "bob", none, 0⟩]
  postTokenBalances := [⟨1, "USDC", some "bob", none, 5⟩]
  distinct := by decide
  same := rfl
  single := nodup_singleton _
  tokens := by simp [isTokenAccount]

def tokenEvent : TransferEvent :=
  (⟨1, ledgerAssetKey .devnet "USDC", "bob", 5⟩ : Transfer).event .devnet "sig" 7
    (some "tokens of bob")

theorem token_first_blocks : ∃ s,
    exec (State.step sampleConfig) State.initial (fetched tokenPayment) = some s ∧
    .parse bobsPoll [] [tokenEvent] (some "sig") ∈ s.tasks ∧ Settled tokenEvent ∧
    tokenEvent.recipient = bobsPoll.owner ∧ Creditable s.db tokenEvent ∧
    s.db.deposits = [] ∧ s.db.cursorOf "a" "bob" = none ∧
    ∀ choice, s.step sampleConfig
      (.work (.parse bobsPoll [] [tokenEvent] (some "sig")) choice) = none := by
  obtain ⟨s, hs, htask, hcreditable, hdeposits, hcursor⟩ : ∃ s,
      exec (State.step sampleConfig) State.initial (fetched tokenPayment) = some s ∧
      .parse bobsPoll [] [tokenEvent] (some "sig") ∈ s.tasks ∧ Creditable s.db tokenEvent ∧
      s.db.deposits = [] ∧ s.db.cursorOf "a" "bob" = none := Lib.exec_reaches (by decide +kernel)
  exact ⟨s, hs, htask, ⟨rfl, by decide⟩, rfl, hcreditable, hdeposits, hcursor,
    token_first_throws sampleConfig s rfl (by decide)⟩

end AtlasCex.Deposits
