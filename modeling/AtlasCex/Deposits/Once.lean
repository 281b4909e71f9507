import AtlasCex.Deposits.Indexer
/-!
# Deposits are credited once

Every event any task holds was read from a settled transaction (`Reported`), so every row is of a
transfer. The unique index keeps one row for a transfer, and the row, its posting and its mark are
written together (`Booked`). Two transfers of one transaction have two positions (`Carries.unique`).

Amounts are those of the answers. Lamports arrive as numbers, and above `2 ^ 53` a number is not always
the balance: `credited_above_precision`.
-/
namespace AtlasCex.Deposits

open List
open Lib (exec exec_always)
open Ledger (AssetKey LedgerTransaction effects userCustodyAvailable houseRent postDeposit_ok)

variable {tokenAccount : Address → Bool} {config : Config} {s t : State tokenAccount}

/-! ## Rows and postings -/

/-- The posting of a credited row. -/
structure PostingOf (d : DepositRow) (p : String × LedgerTransaction) : Prop where
  kind : p.2.kind = .deposit
  reference : p.2.referenceId = d.id
  status : d.status = .credited
  transaction : d.ledgerTransactionId = some p.1
  amount : effects p.2.entries (userCustodyAvailable d.userId d.asset) +
    effects p.2.entries (houseRent d.asset) = d.amount

structure Booked (db : Db) : Prop where
  keys : (db.deposits.map DepositRow.key).Nodup
  ids : (db.deposits.map (·.id)).Nodup
  transactions : (db.ledger.map (·.1)).Nodup
  posted : ∀ p ∈ db.ledger, p.2.kind = .deposit → ∃ d ∈ db.deposits, PostingOf d p
  credited : ∀ d ∈ db.deposits, d.status = .credited → ∃ p ∈ db.ledger, PostingOf d p

theorem nodup_map_append {α β : Type} {f : α → β} {l : List α} {a : α} (h : (l.map f).Nodup)
    (hnew : ∀ x ∈ l, f x ≠ f a) : ((l ++ [a]).map f).Nodup := by
  rw [map_append]
  refine nodup_append.2 ⟨h, nodup_singleton _, ?_⟩
  intro x hx y hy
  obtain ⟨z, hz, rfl⟩ := mem_map.1 hx
  obtain rfl := mem_singleton.1 hy
  exact hnew z hz

variable {call : Credit} {db db' : Db}

theorem Booked.of_writes (h : Booked db) (hw : Db.Writes db call db') :
    Booked db' := by
  cases hw with
  | nothing => exact h
  | ignored event rent address wallet id row fresh new row_eq =>
    refine ⟨nodup_map_append h.keys new, nodup_map_append h.ids fresh, h.transactions, ?_, ?_⟩
    · intro p hp hkind
      obtain ⟨d, hd, hposting⟩ := h.posted p hp hkind
      exact ⟨d, mem_append_left _ hd, hposting⟩
    · intro d hd hstatus
      obtain hd | hd := mem_append.1 hd
      · exact h.credited d hd hstatus
      · obtain rfl := mem_singleton.1 hd
        rw [row_eq] at hstatus
        cases hstatus
  | credited event rent address wallet id transactionId row applicable posting fresh new unused
      row_eq posted =>
    have hposting : PostingOf row (transactionId, posting) := by
      obtain ⟨hkind, hreference, hamount⟩ := postDeposit_ok posted
      subst row_eq
      exact ⟨hkind, hreference, rfl, rfl, hamount⟩
    refine ⟨nodup_map_append h.keys new, nodup_map_append h.ids fresh,
      nodup_map_append h.transactions unused, ?_, ?_⟩
    · intro p hp hkind
      obtain hp | hp := mem_append.1 hp
      · obtain ⟨d, hd, hold⟩ := h.posted p hp hkind
        exact ⟨d, mem_append_left _ hd, hold⟩
      · obtain rfl := mem_singleton.1 hp
        exact ⟨row, mem_append_right _ (mem_singleton_self _), hposting⟩
    · intro d hd hstatus
      obtain hd | hd := mem_append.1 hd
      · obtain ⟨p, hp, hold⟩ := h.credited d hd hstatus
        exact ⟨p, mem_append_left _ hp, hold⟩
      · obtain rfl := mem_singleton.1 hd
        exact ⟨_, mem_append_right _ (mem_singleton_self _), hposting⟩

/-- A posting of another kind. -/
theorem Booked.post (h : Booked db) {id : String} {transaction : LedgerTransaction}
    (hkind : transaction.kind ≠ .deposit) (hnew : ∀ p ∈ db.ledger, p.1 ≠ id) :
    Booked { db with ledger := db.ledger ++ [(id, transaction)] } := by
  refine ⟨h.keys, h.ids, nodup_map_append h.transactions hnew, ?_, ?_⟩
  · intro p hp hdeposit
    obtain hp | hp := mem_append.1 hp
    · exact h.posted p hp hdeposit
    · obtain rfl := mem_singleton.1 hp
      exact absurd hdeposit hkind
  · intro d hd hstatus
    obtain ⟨p, hp, hold⟩ := h.credited d hd hstatus
    exact ⟨p, mem_append_left _ hp, hold⟩

theorem Booked.congr (h : Booked db) (hdeposits : db'.deposits = db.deposits)
    (hledger : db'.ledger = db.ledger) : Booked db' := by
  constructor
  · rw [hdeposits]; exact h.keys
  · rw [hdeposits]; exact h.ids
  · rw [hledger]; exact h.transactions
  · rw [hdeposits, hledger]; exact h.posted
  · rw [hdeposits, hledger]; exact h.credited

/-! ## Events -/

/-- Read from a settled transaction. -/
def Reported (s : State tokenAccount) (event : TransferEvent) : Prop :=
  ∃ cluster signature x transfer account, (s.chains cluster).find signature = some x ∧
    Carries cluster x.reported transfer ∧
    event = transfer.event cluster signature x.slot account

/-- The transactions that have settled stay. -/
def Extends (s t : State tokenAccount) : Prop :=
  ∀ cluster signature x, (s.chains cluster).find signature = some x →
    (t.chains cluster).find signature = some x

variable {event : TransferEvent}

theorem Reported.mono (h : Reported s event) (hext : Extends s t) :
    Reported t event := by
  obtain ⟨cluster, signature, x, transfer, account, hx, hrest⟩ := h
  exact ⟨cluster, signature, x, transfer, account, hext _ _ _ hx, hrest⟩

variable {poll : Poll} {signature : Signature} {x : Executed tokenAccount}

theorem mem_eventsOf (h : event ∈ eventsOf poll signature (some (x.parsed true))) :
    ∃ transfer account, Carries poll.cluster x.reported transfer ∧
      event = transfer.event poll.cluster signature x.slot account := by
  obtain h | h := mem_append.1 h
  · obtain ⟨transfer, hcarries, -, rfl⟩ := mem_parseTransfers.1 h
    exact ⟨transfer, none, .inl hcarries, rfl⟩
  · obtain ⟨transfer, ⟨hsuccess, hentry⟩, -, rfl⟩ := mem_parseTokenTransfers.1 h
    exact ⟨transfer, _, .inr ⟨hsuccess, hentry⟩, rfl⟩

theorem reported_of_mem {metadata : Bool} (hx : (s.chains poll.cluster).find signature = some x)
    (h : event ∈ eventsOf poll signature (some (x.parsed metadata))) : Reported s event := by
  cases metadata with
  | false =>
    obtain ⟨hnative, htoken⟩ := parse_without_metadata x [poll.scanAddress] [poll.owner] signature
      poll.cluster
    simp [eventsOf, hnative, htoken] at h
  | true =>
    obtain ⟨transfer, account, hcarries, rfl⟩ := mem_eventsOf h
    exact ⟨poll.cluster, signature, x, transfer, account, hx, hcarries, rfl⟩

/-- The events a task still has to do with. -/
def Task.events : Task → List TransferEvent
  | .fetch _ | .advance .. => []
  | .parse _ _ transfers _ => transfers
  | .count _ event rest _ _ => event :: rest
  | .credit _ call next => call.event :: (next.map fun n => n.event :: n.rest).getD []

variable {rest : List TransferEvent} {rent : Nat} {highest : Option (Signature × Nat)} {task : Task}

theorem events_loop (h : task ∈ loop poll rest rent highest) :
    task.events ⊆ rest := by
  unfold loop at h
  split at h
  · obtain rfl := mem_singleton.1 h
    exact List.Subset.refl _
  · simp only [Option.mem_toList, Option.map_eq_some_iff] at h
    obtain ⟨_, -, rfl⟩ := h
    exact nil_subset _

theorem events_resume {next : Next} {outcome : CreditOutcome}
    (h : task ∈ next.resume outcome) : task.events ⊆ next.event :: next.rest := by
  cases outcome with
  | notFinal =>
    have hloop : task ∈ loop next.poll [] next.rent next.highest := h
    exact List.Subset.trans (events_loop hloop) (nil_subset _)
  | credited | duplicate | ignored => exact List.Subset.trans (events_loop h) (subset_cons_self _ _)

variable {next : Option Next} {cluster : Cluster}

/-- A call that goes on keeps its event, and one that is back leaves those of its caller. -/
theorem events_proceed {credit : CreditNext} (h : task ∈ proceed cluster next credit)
    (hcredit : ∀ c, credit = .on c → c.event = event) :
    task.events ⊆ event :: (next.map fun n => n.event :: n.rest).getD [] := by
  cases credit with
  | on c =>
    obtain rfl := mem_singleton.1 h
    rw [← hcredit c rfl]
    exact List.Subset.refl _
  | back outcome =>
    cases next with
    | none => simp [proceed] at h
    | some next =>
      exact List.Subset.trans (events_resume h) (subset_cons_self _ _)

theorem creditTransfer_on {c : Credit}
    (h : creditTransfer event rent = .on c) : c.event = event ∧ ∀ db : Db, db.CreditOk c := by
  unfold creditTransfer at h
  split at h
  · cases h
  · cases h
    exact ⟨rfl, fun _ => trivial⟩

/-! ## Steps -/

def Task.CallOk (db : Db) : Task → Prop
  | .credit _ call _ => db.CreditOk call
  | _ => True

theorem loop_callOk (h : task ∈ loop poll rest rent highest) :
    task.CallOk db := by
  unfold loop at h
  split at h
  · obtain rfl := mem_singleton.1 h
    trivial
  · simp only [Option.mem_toList, Option.map_eq_some_iff] at h
    obtain ⟨_, -, rfl⟩ := h
    trivial

theorem proceed_callOk {credit : CreditNext} (h : task ∈ proceed cluster next credit)
    (hcredit : ∀ c, credit = .on c → db.CreditOk c) : task.CallOk db := by
  cases credit with
  | on c =>
    obtain rfl := mem_singleton.1 h
    exact hcredit c rfl
  | back outcome =>
    cases next with
    | none => simp [proceed] at h
    | some next =>
      have hresume : task ∈ next.resume outcome := h
      cases outcome <;> exact loop_callOk (by simpa only [Next.resume] using hresume)

/-- What a task does: the tasks it leaves, and what it writes besides cursors. -/
structure Worked (task : Task) (s t : State tokenAccount) : Prop where
  chains : t.chains = s.chains
  tasks : ∃ left, t.tasks = left ++ s.tasks ∧ ∀ task' ∈ left,
    (∀ e ∈ task'.events, e ∈ task.events ∨ Reported s e) ∧ (task.CallOk s.db → task'.CallOk s.db)
  addresses : t.db.addresses = s.db.addresses
  wallets : t.db.wallets = s.db.wallets
  books : (t.db.deposits = s.db.deposits ∧ t.db.ledger = s.db.ledger) ∨
    ∃ cluster call next, task = .credit cluster call next ∧ Db.Writes s.db call t.db

theorem advance_same (db : Db) (addressId : String) (scanAddress : Address) (signature : Signature)
    (position : Option Nat) :
    let db' := db.advance addressId scanAddress signature position
    db'.addresses = db.addresses ∧ db'.wallets = db.wallets ∧ db'.deposits = db.deposits ∧
      db'.ledger = db.ledger := by
  unfold Db.advance
  split <;> exact ⟨rfl, rfl, rfl, rfl⟩

theorem touch_same (db : Db) (addressId : String) (scanAddress : Address) :
    let db' := db.touch addressId scanAddress
    db'.addresses = db.addresses ∧ db'.wallets = db.wallets ∧ db'.deposits = db.deposits ∧
      db'.ledger = db.ledger := by
  unfold Db.touch
  split <;> exact ⟨rfl, rfl, rfl, rfl⟩

/-- Tasks are left and nothing is written. -/
theorem Worked.of_spawn {left : List Task}
    (h : ∀ task' ∈ left, (∀ e ∈ task'.events, e ∈ task.events ∨ Reported s e) ∧
      (task.CallOk s.db → task'.CallOk s.db)) : Worked task s (s.spawn left) :=
  ⟨rfl, ⟨left, rfl, h⟩, rfl, rfl, .inl ⟨rfl, rfl⟩⟩

theorem Writes.custody (h : Db.Writes db call db') :
    db'.addresses = db.addresses ∧ db'.wallets = db.wallets := by
  cases h <;> exact ⟨rfl, rfl⟩

variable {choice : Choice}

theorem Worked.fetch
    (h : s.work config (.fetch poll) choice = some t) : Worked (.fetch poll) s t := by
  cases choice with
  | go =>
    cases h
    refine .of_spawn fun task' htask' => ?_
    obtain rfl := mem_singleton.1 htask'
    exact ⟨fun e he => (by cases he), fun _ => trivial⟩
  | answer | rent | ids => cases h

variable {nextCursor : Option Signature}

/-- One answer. -/
theorem Worked.answer {rest : List Signature} {transfers : List TransferEvent}
    (h : s.work config (.parse poll (signature :: rest) transfers nextCursor) choice = some t) :
    Worked (.parse poll (signature :: rest) transfers nextCursor) s t := by
  cases choice with
  | answer a =>
    obtain ⟨parsed, hparsed, rfl⟩ := Option.map_eq_some_iff.1 h
    refine .of_spawn fun task' htask' => ?_
    obtain rfl := mem_singleton.1 htask'
    refine ⟨fun e he => ?_, fun _ => trivial⟩
    obtain he | he := mem_append.1 he
    · exact .inl he
    · refine .inr ?_
      cases a with
      | unavailable =>
        obtain rfl := Option.some.inj hparsed
        cases he
      | parsed metadata =>
        simp only [getParsedTransaction, Option.ite_none_right_eq_some, Option.map_eq_some_iff]
          at hparsed
        obtain ⟨-, x, hx, rfl⟩ := hparsed
        exact reported_of_mem hx he
  | go | rent | ids => cases h

/-- A page without transfers. -/
theorem Worked.nothing (h : s.work config (.parse poll [] [] nextCursor) choice = some t) :
    Worked (.parse poll [] [] nextCursor) s t := by
  cases choice with
  | go =>
    obtain ⟨haddresses, hwallets, hdeposits, hledger⟩ :=
      touch_same s.db poll.addressId poll.scanAddress
    have htouched : Worked (.parse poll [] [] nextCursor) s
        { s with db := s.db.touch poll.addressId poll.scanAddress } :=
      ⟨rfl, ⟨[], rfl, by simp⟩, haddresses, hwallets, .inl ⟨hdeposits, hledger⟩⟩
    cases nextCursor with
    | none =>
      cases h
      exact htouched
    | some signature =>
      simp only [State.work] at h
      split at h
      · cases h
        refine ⟨rfl, ⟨_, rfl, ?_⟩, haddresses, hwallets, .inl ⟨hdeposits, hledger⟩⟩
        intro task' htask'
        obtain rfl := mem_singleton.1 htask'
        exact ⟨fun e he => (by cases he), fun _ => trivial⟩
      · cases h
        exact htouched
  | answer | rent | ids => cases h

/-- A page with transfers. -/
theorem Worked.found
    (h : s.work config (.parse poll [] (event :: rest) nextCursor) choice = some t) :
    Worked (.parse poll [] (event :: rest) nextCursor) s t := by
  have hleft : ∀ rent, Worked (.parse poll [] (event :: rest) nextCursor) s
      (s.spawn (loop poll (event :: rest) rent none)) := fun rent =>
    .of_spawn fun task' htask' =>
      ⟨fun e he => .inl (events_loop htask' he), fun _ => loop_callOk htask'⟩
  cases choice with
  | rent lamports =>
    simp only [State.work] at h
    split at h
    · split at h
      · cases h
        exact hleft _
      · cases h
    · cases h
      exact hleft _
  | go | answer | ids => cases h

theorem Worked.count (h : s.work config (.count poll event rest rent highest) choice = some t) :
    Worked (.count poll event rest rent highest) s t := by
  cases choice with
  | go =>
    cases h
    refine .of_spawn fun task' htask' => ⟨fun e he => .inl ?_, fun _ => ?_⟩
    · have hsub := events_proceed htask' (fun c hc => (creditTransfer_on hc).1) he
      simpa [Task.events] using hsub
    · exact proceed_callOk htask' fun c hc => (creditTransfer_on hc).2 _
  | answer | rent | ids => cases h

theorem Worked.credit (h : s.work config (.credit cluster call next) choice = some t) :
    Worked (.credit cluster call next) s t := by
  cases choice with
  | ids depositId transactionId =>
    obtain ⟨⟨db', out⟩, hcredit, rfl⟩ := Option.map_eq_some_iff.1 h
    have hwrites := Db.creditStep_writes hcredit
    obtain ⟨haddresses, hwallets⟩ := Writes.custody hwrites
    refine ⟨rfl, ⟨_, rfl, ?_⟩, haddresses, hwallets,
      .inr ⟨cluster, call, next, rfl, hwrites⟩⟩
    intro task' htask'
    refine ⟨fun e he => .inl (events_proceed htask' (fun c hc => ?_) he), fun hok => ?_⟩
    · simp only at hc
      exact (Db.creditStep_event (hc ▸ hcredit))
    · refine proceed_callOk htask' fun c hc => ?_
      simp only at hc
      exact (Db.creditStep_on hok (hc ▸ hcredit))
  | go | answer | rent => cases h

theorem Worked.advance {position : Option Nat}
    (h : s.work config (.advance poll signature position) choice = some t) :
    Worked (.advance poll signature position) s t := by
  cases choice with
  | go =>
    cases h
    obtain ⟨haddresses, hwallets, hdeposits, hledger⟩ :=
      advance_same s.db poll.addressId poll.scanAddress signature position
    exact ⟨rfl, ⟨[], rfl, by simp⟩, haddresses, hwallets, .inl ⟨hdeposits, hledger⟩⟩
  | answer | rent | ids => cases h

theorem work_worked (h : s.work config task choice = some t) :
    Worked task s t := by
  cases task with
  | fetch poll => exact .fetch h
  | parse poll rest transfers nextCursor =>
    cases rest with
    | cons signature rest => exact .answer h
    | nil =>
      cases transfers with
      | nil => exact .nothing h
      | cons event rest => exact .found h
  | count poll event rest rent highest => exact .count h
  | credit cluster call next => exact .credit h
  | advance poll signature position => exact .advance h

/-! ## The invariant -/

/-- The row of a transfer that was read, at the address it went to. -/
def RowOf (s : State tokenAccount) (d : DepositRow) : Prop :=
  ∃ cluster x transfer, (s.chains cluster).find d.txSignature = some x ∧
    Carries cluster x.reported transfer ∧ d.chain = solanaChainId cluster ∧
    d.instructionIndex = transfer.index ∧ d.asset = transfer.asset ∧ d.amount = transfer.amount ∧
    ∃ a ∈ s.db.addresses, a.id = d.addressId ∧ a.chain = d.chain ∧ a.address = transfer.recipient

structure Inv (s : State tokenAccount) : Prop where
  booked : Booked s.db
  rows : ∀ d ∈ s.db.deposits, RowOf s d
  events : ∀ task ∈ s.tasks, ∀ e ∈ task.events, Reported s e
  calls : ∀ task ∈ s.tasks, task.CallOk s.db
  wallets : ∀ a ∈ s.db.addresses, tokenAccount a.address = false

/-- Addresses stay, whether they are watched or not. -/
def Db.Keeps (db db' : Db) : Prop :=
  ∀ a ∈ db.addresses, ∃ a' ∈ db'.addresses, a'.id = a.id ∧ a'.chain = a.chain ∧ a'.address = a.address

theorem Db.Keeps.of_eq (h : db'.addresses = db.addresses) : db.Keeps db' :=
  fun a ha => ⟨a, h ▸ ha, rfl, rfl, rfl⟩

variable {d : DepositRow}

theorem RowOf.mono (h : RowOf s d) (hext : Extends s t) (hkeeps : s.db.Keeps t.db) :
    RowOf t d := by
  obtain ⟨cluster, x, transfer, hx, hcarries, hchain, hindex, hasset, hamount, a, ha, hid, ha', haddress⟩ := h
  obtain ⟨b, hb, hbid, hbchain, hbaddress⟩ := hkeeps a ha
  exact ⟨cluster, x, transfer, hext _ _ _ hx, hcarries, hchain, hindex, hasset, hamount, b, hb,
    hbid.trans hid, hbchain.trans ha', hbaddress.trans haddress⟩

theorem Task.CallOk.mono (h : task.CallOk db) (hkeeps : db.Keeps db') :
    task.CallOk db' := by
  have hfound : ∀ {id chain : String} {address : Address},
      (∃ a ∈ db.addresses, a.id = id ∧ a.chain = chain ∧ a.address = address) →
      ∃ a ∈ db'.addresses, a.id = id ∧ a.chain = chain ∧ a.address = address := by
    rintro id chain address ⟨a, ha, rfl, rfl, rfl⟩
    exact hkeeps a ha
  cases task with
  | credit cluster call next =>
    cases call with
    | address => trivial
    | wallet event rent address => exact hfound h
    | transaction event rent address wallet => exact hfound h
  | fetch | parse | count | advance => trivial

/-- The chains and the addresses may grow, and tasks come and go. -/
theorem Inv.frame (h : Inv s) (hext : Extends s t) (hkeeps : s.db.Keeps t.db)
    (hrows : ∀ d ∈ t.db.deposits, RowOf s d) (hbooked : Booked t.db)
    (hwallets : ∀ a ∈ t.db.addresses, tokenAccount a.address = false)
    (htasks : ∀ task ∈ t.tasks, task ∈ s.tasks ∨
      (∀ e ∈ task.events, Reported t e) ∧ task.CallOk t.db) : Inv t where
  booked := hbooked
  rows d hd := (hrows d hd).mono hext hkeeps
  events task htask e he := by
    obtain hold | ⟨hnew, -⟩ := htasks task htask
    · exact (h.events task hold e he).mono hext
    · exact hnew e he
  calls task htask := by
    obtain hold | ⟨-, hnew⟩ := htasks task htask
    · exact (h.calls task hold).mono hkeeps
    · exact hnew
  wallets := hwallets

theorem Extends.refl (s : State tokenAccount) : Extends s s := fun _ _ _ h => h

theorem Extends.of_chains (h : t.chains = s.chains) : Extends s t := by
  intro cluster signature x hx
  rw [h]
  exact hx

/-- A row is of the event it was written for. -/
theorem rowOf_rowOf {address : AddressRow}
    (hreported : Reported s event) (haddress : ∃ a ∈ s.db.addresses,
      a.id = address.id ∧ a.chain = event.chain ∧ a.address = event.recipient)
    (hid : d.addressId = address.id) (hchain : d.chain = event.chain) (hasset : d.asset = event.asset)
    (hamount : d.amount = event.amount) (hsignature : d.txSignature = event.txReference)
    (hindex : d.instructionIndex = event.instructionIndex) : RowOf s d := by
  obtain ⟨cluster, signature, x, transfer, account, hx, hcarries, rfl⟩ := hreported
  obtain ⟨a, ha, haid, hachain, harecipient⟩ := haddress
  refine ⟨cluster, x, transfer, ?_, hcarries, hchain, hindex, hasset, hamount, a, ha, ?_, ?_,
    harecipient⟩
  · rw [hsignature]
    exact hx
  · rw [haid, hid]
  · rw [hachain, hchain]

theorem Inv.worked (h : Inv s) (hok : task.CallOk s.db)
    (hevents : ∀ e ∈ task.events, Reported s e) (hw : Worked task s t) : Inv t := by
  have hext := Extends.of_chains hw.chains
  have hkeeps := Db.Keeps.of_eq hw.addresses
  obtain ⟨left, hleft, hnew⟩ := hw.tasks
  have htasks : ∀ task' ∈ t.tasks, task' ∈ s.tasks ∨
      (∀ e ∈ task'.events, Reported t e) ∧ task'.CallOk t.db := by
    intro task' htask'
    rw [hleft] at htask'
    obtain htask' | htask' := mem_append.1 htask'
    · obtain ⟨hnewevents, hnewok⟩ := hnew task' htask'
      refine .inr ⟨fun e he => ?_, (hnewok hok).mono hkeeps⟩
      obtain he | he := hnewevents e he
      · exact (hevents e he).mono hext
      · exact he.mono hext
    · exact .inl htask'
  have hwallets : ∀ a ∈ t.db.addresses, tokenAccount a.address = false := by
    rw [hw.addresses]
    exact h.wallets
  obtain ⟨hdeposits, hledger⟩ | ⟨cluster, call, next, rfl, hwrites⟩ := hw.books
  · exact h.frame hext hkeeps (fun d hd => h.rows d (hdeposits ▸ hd))
      (h.booked.congr hdeposits hledger) hwallets htasks
  · have hrows : ∀ d ∈ t.db.deposits, RowOf s d := by
      intro d hd
      have hreported : Reported s call.event := hevents _ mem_cons_self
      generalize t.db = db' at hwrites hd
      cases hwrites with
      | nothing => exact h.rows d hd
      | ignored event rent address wallet id row fresh new row_eq =>
        obtain hd | hd := mem_append.1 hd
        · exact h.rows d hd
        · obtain rfl := mem_singleton.1 hd
          subst row_eq
          exact rowOf_rowOf hreported hok rfl rfl rfl rfl rfl rfl
      | credited event rent address wallet id transactionId row applicable posting fresh new unused
          row_eq posted =>
        obtain hd | hd := mem_append.1 hd
        · exact h.rows d hd
        · obtain rfl := mem_singleton.1 hd
          subst row_eq
          exact rowOf_rowOf hreported hok rfl rfl rfl rfl rfl rfl
    exact h.frame hext hkeeps hrows (h.booked.of_writes hwrites) hwallets htasks

variable {chain : Chain tokenAccount}

theorem Extends.setChain
    (h : ∀ signature x, (s.chains cluster).find signature = some x → chain.find signature = some x) :
    Extends s (s.setChain cluster chain) := by
  intro other signature x hx
  by_cases hother : other = cluster
  · subst hother
    simpa [State.setChain] using h signature x hx
  · simpa [State.setChain, Function.update_of_ne hother] using hx

/-- A step of the chain. -/
theorem Inv.setChain (h : Inv s)
    (hext : Extends s (s.setChain cluster chain)) : Inv (s.setChain cluster chain) :=
  h.frame hext (.of_eq rfl) h.rows h.booked h.wallets fun _ => .inl

theorem find_append {entry : Landed tokenAccount} (h : chain.find signature = some x) :
    ({ chain with landed := chain.landed ++ [entry] } : Chain tokenAccount).find signature = some x := by
  obtain ⟨found, hfound, rfl⟩ := Option.map_eq_some_iff.1 h
  simp [Chain.find, find?_append, hfound]

/-- Tasks that a label starts. -/
theorem Inv.spawn {left : List Task} (h : Inv s)
    (hleft : ∀ task ∈ left, (∀ e ∈ task.events, Reported s e) ∧ task.CallOk s.db) :
    Inv (s.spawn left) := by
  refine h.frame (Extends.refl s) (.of_eq rfl) h.rows h.booked h.wallets fun task htask => ?_
  obtain htask | htask := mem_append.1 htask
  · exact .inr (hleft task htask)
  · exact .inl htask

theorem Inv.step {label : Label tokenAccount} (h : Inv s) (hstep : s.step config label = some t) :
    Inv t := by
  cases label with
  | land cluster entry =>
    obtain ⟨-, ⟨⟩⟩ := Option.ite_none_left_eq_some.1 hstep
    exact h.setChain (.setChain fun signature x hx => find_append hx)
  | confirm cluster =>
    obtain ⟨-, ⟨⟩⟩ := Option.ite_none_right_eq_some.1 hstep
    exact h.setChain (.setChain fun signature x hx => hx)
  | finalize cluster =>
    obtain ⟨-, ⟨⟩⟩ := Option.ite_none_right_eq_some.1 hstep
    exact h.setChain (.setChain fun signature x hx => hx)
  | newWallet wallet =>
    obtain ⟨-, ⟨⟩⟩ := Option.ite_none_left_eq_some.1 hstep
    exact h.frame (.of_chains rfl) (.of_eq rfl) h.rows (h.booked.congr rfl rfl) h.wallets
      fun _ => .inl
  | newAddress address =>
    simp only [State.step, Option.ite_none_left_eq_some, Option.some.injEq, not_or,
      Bool.not_eq_true] at hstep
    obtain ⟨⟨-, -, -, hwallet⟩, rfl⟩ := hstep
    refine h.frame (.of_chains rfl) (fun a ha => ⟨a, mem_append_left _ ha, rfl, rfl, rfl⟩)
      h.rows (h.booked.congr rfl rfl) ?_ fun _ => .inl
    intro a ha
    obtain ha | ha := mem_append.1 ha
    · exact h.wallets a ha
    · obtain rfl := mem_singleton.1 ha
      exact hwallet
  | setActive walletId active =>
    cases hstep
    exact h.frame (.of_chains rfl) (.of_eq rfl) h.rows (h.booked.congr rfl rfl) h.wallets
      fun _ => .inl
  | setWatched addressId watched =>
    cases hstep
    refine h.frame (.of_chains rfl) (fun a ha => ⟨_, mem_map_of_mem ha, ?_⟩) h.rows
      (h.booked.congr rfl rfl) ?_ fun _ => .inl
    · split <;> exact ⟨rfl, rfl, rfl⟩
    · intro a ha
      obtain ⟨b, hb, rfl⟩ := mem_map.1 ha
      split <;> exact h.wallets b hb
  | post id transaction =>
    simp only [State.step, Option.ite_none_left_eq_some, Option.some.injEq, not_or,
      any_eq_true, decide_eq_true_eq, not_exists, not_and] at hstep
    obtain ⟨⟨hkind, hnew⟩, rfl⟩ := hstep
    exact h.frame (.of_chains rfl) (.of_eq rfl) h.rows (h.booked.post hkind hnew) h.wallets
      fun _ => .inl
  | watch cluster addressId scanAddress =>
    simp only [State.step] at hstep
    split at hstep
    · cases hstep
    · simp only [Option.ite_none_right_eq_some, Option.some.injEq] at hstep
      obtain ⟨-, rfl⟩ := hstep
      refine h.spawn fun task htask => ?_
      obtain rfl := mem_singleton.1 htask
      exact ⟨fun e he => (by cases he), trivial⟩
  | report poll signature event rent =>
    simp only [State.step] at hstep
    split at hstep
    · cases hstep
    · rename_i x hx
      simp only [Option.ite_none_right_eq_some, Option.some.injEq] at hstep
      obtain ⟨hmem, rfl⟩ := hstep
      refine h.spawn fun task htask => ⟨fun e he => ?_, ?_⟩
      · have hsub := events_proceed htask (fun c hc => (creditTransfer_on hc).1) he
        obtain rfl : e = event := by simpa using hsub
        exact reported_of_mem hx hmem
      · exact proceed_callOk htask fun c hc => (creditTransfer_on hc).2 _
  | work task choice =>
    simp only [State.step, Option.ite_none_right_eq_some] at hstep
    obtain ⟨hmem, hwork⟩ := hstep
    have herased : Inv { s with tasks := s.tasks.erase task } :=
      h.frame (.of_chains rfl) (.of_eq rfl) h.rows h.booked h.wallets
        fun task' htask' => .inl (mem_of_mem_erase htask')
    exact herased.worked (h.calls task hmem) (h.events task hmem) (work_worked hwork)
  | crash =>
    cases hstep
    exact h.frame (.of_chains rfl) (.of_eq rfl) h.rows h.booked h.wallets (by simp)

theorem Inv.initial : Inv (State.initial : State tokenAccount) where
  booked := ⟨nodup_nil, nodup_nil, nodup_nil, by simp [State.initial],
    by simp [State.initial]⟩
  rows := by simp [State.initial]
  events := by simp [State.initial]
  calls := by simp [State.initial]
  wallets := by simp [State.initial]

/-! ## Runs -/

/-- Each transfer has at most one row and at most one posting, the row is marked when the posting is
there, and the posting credits what was read for the transfer of that row and of no other. -/
structure CreditedOnce (s : State tokenAccount) : Prop where
  row : ∀ key, (s.db.deposits.filter (·.key = key)).length ≤ 1
  posting : ∀ key, (s.db.ledger.filter fun p => p.2.kind = .deposit ∧
    ∃ d ∈ s.db.deposits, d.id = p.2.referenceId ∧ d.key = key).length ≤ 1
  provenance : ∀ p ∈ s.db.ledger, p.2.kind = .deposit → ∃ d ∈ s.db.deposits, d.id = p.2.referenceId
  marked : ∀ d ∈ s.db.deposits, d.status = .credited ↔
    ∃ p ∈ s.db.ledger, p.2.kind = .deposit ∧ p.2.referenceId = d.id
  /-- The amount is the transfer's, unless a balance is too large for a number. -/
  amount : ∀ d ∈ s.db.deposits, ∀ p ∈ s.db.ledger, p.2.kind = .deposit → p.2.referenceId = d.id →
    ∃ cluster x transfer, (s.chains cluster).find d.txSignature = some x ∧
      d.key = (solanaChainId cluster, d.txSignature, transfer.index) ∧
      (CarriesToken cluster x transfer ∨ CarriesNative cluster x.reported transfer ∧
        (x.Exact transfer.index → CarriesNative cluster x transfer)) ∧
      effects p.2.entries (userCustodyAvailable d.userId transfer.asset) +
        effects p.2.entries (houseRent transfer.asset) = transfer.amount ∧
      ∃ a ∈ s.db.addresses, a.id = d.addressId ∧ a.address = transfer.recipient
  separate : ∀ cluster signature x, (s.chains cluster).find signature = some x →
    ∀ a ∈ s.db.addresses, ∀ b ∈ s.db.addresses, ∀ transfer other : Transfer,
      transfer.recipient = a.address → other.recipient = b.address → transfer ≠ other →
      Carries cluster x transfer → Carries cluster x other →
      ¬∃ d ∈ s.db.deposits, d.key = (solanaChainId cluster, signature, transfer.index) ∧
        d.key = (solanaChainId cluster, signature, other.index)

theorem length_filter_le_one {α : Type} {l : List α} {p : α → Bool} (hnodup : l.Nodup)
    (h : ∀ a ∈ l, ∀ b ∈ l, p a = true → p b = true → a = b) : (l.filter p).length ≤ 1 := by
  by_contra hlong
  obtain ⟨a, b, rest, hfilter⟩ : ∃ a b rest, l.filter p = a :: b :: rest := by
    match hf : l.filter p with
    | [] | [_] => simp [hf] at hlong
    | a :: b :: rest => exact ⟨a, b, rest, rfl⟩
  have hmem : ∀ c ∈ a :: b :: rest, c ∈ l ∧ p c = true := fun c hc =>
    mem_filter.1 (hfilter ▸ hc)
  obtain rfl := h a (hmem a (by simp)).1 b (hmem b (by simp)).1 (hmem a (by simp)).2
    (hmem b (by simp)).2
  have hnodup' := hnodup.filter p
  rw [hfilter] at hnodup'
  simp at hnodup'

theorem Booked.row_unique (h : Booked db) {d' : DepositRow} (hd : d ∈ db.deposits)
    (hd' : d' ∈ db.deposits) (hid : d.id = d'.id) : d = d' :=
  inj_on_of_nodup_map h.ids hd hd' hid

/-- The deposit posting that refers to a row is its posting. -/
theorem Booked.posting_of (h : Booked db) {p : String × LedgerTransaction}
    (hd : d ∈ db.deposits) (hp : p ∈ db.ledger) (hkind : p.2.kind = .deposit)
    (hreference : p.2.referenceId = d.id) : PostingOf d p := by
  obtain ⟨d', hd', hposting⟩ := h.posted p hp hkind
  obtain rfl := h.row_unique hd hd' (hreference.symm.trans hposting.reference)
  exact hposting

theorem Inv.creditedOnce (h : Inv s) : CreditedOnce s where
  row key := by
    refine length_filter_le_one h.booked.keys.of_map fun d hd d' hd' hkey hkey' => ?_
    simp only [decide_eq_true_eq] at hkey hkey'
    exact inj_on_of_nodup_map h.booked.keys hd hd' (hkey.trans hkey'.symm)
  posting key := by
    refine length_filter_le_one h.booked.transactions.of_map fun p hp q hq hpkey hqkey => ?_
    simp only [decide_eq_true_eq] at hpkey hqkey
    obtain ⟨hpkind, d, hd, hdid, hdkey⟩ := hpkey
    obtain ⟨hqkind, d', hd', hdid', hdkey'⟩ := hqkey
    obtain rfl := inj_on_of_nodup_map h.booked.keys hd hd' (hdkey.trans hdkey'.symm)
    have hpposting := h.booked.posting_of hd hp hpkind hdid.symm
    have hqposting := h.booked.posting_of hd hq hqkind hdid'.symm
    have hsame := hpposting.transaction.symm.trans hqposting.transaction
    exact inj_on_of_nodup_map h.booked.transactions hp hq (Option.some.inj hsame)
  provenance p hp hkind := by
    obtain ⟨d, hd, hposting⟩ := h.booked.posted p hp hkind
    exact ⟨d, hd, hposting.reference.symm⟩
  marked d hd := by
    constructor
    · intro hstatus
      obtain ⟨p, hp, hposting⟩ := h.booked.credited d hd hstatus
      exact ⟨p, hp, hposting.kind, hposting.reference⟩
    · rintro ⟨p, hp, hkind, hreference⟩
      exact (h.booked.posting_of hd hp hkind hreference).status
  amount d hd p hp hkind hreference := by
    have hposting := h.booked.posting_of hd hp hkind hreference
    obtain ⟨cluster, x, transfer, hx, hcarries, hchain, hindex, hasset, hamount, a, ha, hid, -,
      haddress⟩ := h.rows d hd
    refine ⟨cluster, x, transfer, hx, ?_, ?_, ?_, a, ha, hid, haddress⟩
    · rw [DepositRow.key, hchain, hindex]
    · obtain hnative | htoken := hcarries
      · exact .inr ⟨hnative, fun hexact => (CarriesNative.reported_iff hexact).1 hnative⟩
      · exact .inl ⟨htoken.success, htoken.entry⟩
    · rw [← hasset, hposting.amount, hamount]
  separate cluster signature x hx a ha b hb transfer other hrecipient hrecipient' hne hcarries hcarries' := by
    rintro ⟨d, -, hkey, hkey'⟩
    have hindex : transfer.index = other.index := (Prod.mk.inj (Prod.mk.inj (hkey.symm.trans hkey')).2).2
    refine hne (hcarries.unique hcarries' ?_ ?_ hindex)
    · rw [hrecipient]
      exact h.wallets a ha
    · rw [hrecipient']
      exact h.wallets b hb

theorem deposits_credited_once {labels : List (Label tokenAccount)}
    (h : exec (State.step config) State.initial labels = some s) : CreditedOnce s :=
  (exec_always Inv.initial (fun _ _ _ hinv hstep => hinv.step hstep) h).creditedOnce

/-! ### One deposit -/

def isTokenAccount (address : Address) : Bool := address = "tokens of bob"

/-- SOL from one account to another, with their balances before and after. -/
def payment (before after : Nat) : Executed isTokenAccount where
  slot := 7
  accountKeys := ["alice", "bob"]
  failed := false
  preBalances := [after, before]
  postBalances := [before, after]
  preTokenBalances := []
  postTokenBalances := []
  distinct := by decide
  same := rfl
  single := nodup_nil
  tokens := by simp

def sampleConfig : Config where
  allowed := fun cluster asset => asset = nativeAssetKey cluster
  tokenAccounts := fun _ owner => if owner = "bob" then ["tokens of bob"] else []
  commitment := .finalized
  pageSize := 2

def bobsWallet : WalletRow := ⟨"w", "bob's user", true⟩
def bobsAddress : AddressRow := ⟨"a", "w", "solana:devnet", "bob", true⟩

/-- Custody of an address. -/
def opened : List (Label isTokenAccount) := [.newWallet bobsWallet, .newAddress bobsAddress]

def settled (signature : Signature) (x : Executed isTokenAccount) : List (Label isTokenAccount) :=
  [.land .devnet ⟨signature, x⟩, .confirm .devnet, .finalize .devnet]

/-- One poll of the address that finds one native transfer. -/
def polled (cursor : Option Signature) (signature : Signature) (amount : Nat) (rent : Nat)
    (depositId transactionId : String) : List (Label isTokenAccount) :=
  let poll : Poll := ⟨.devnet, "a", "bob", cursor, "bob"⟩
  let event := (⟨1, nativeAssetKey .devnet, "bob", amount⟩ : Transfer).event .devnet signature 7 none
  let next : Next := ⟨poll, event, [], rent, none⟩
  [.watch .devnet "a" "bob", .work (.fetch poll) .go,
    .work (.parse poll [signature] [] (some signature)) (.answer (.parsed true)),
    .work (.parse poll [] [event] (some signature)) (.rent rent),
    .work (.count poll event [] rent none) .go,
    .work (.credit .devnet (.address event rent) (some next)) (.ids "" ""),
    .work (.credit .devnet (.wallet event rent bobsAddress) (some next)) (.ids "" ""),
    .work (.credit .devnet (.transaction event rent bobsAddress bobsWallet) (some next))
      (.ids depositId transactionId),
    .work (.advance poll signature (some 7)) .go]

theorem credited_above_precision :
    ∃ s, exec (State.step sampleConfig) State.initial
        (opened ++ settled "sig" (payment (2 ^ 53) (2 ^ 53 + 3)) ++ polled none "sig" 4 0 "d" "t") =
        some s ∧
      (s.chains .devnet).find "sig" = some (payment (2 ^ 53) (2 ^ 53 + 3)) ∧
      CarriesNative .devnet (payment (2 ^ 53) (2 ^ 53 + 3)) ⟨1, nativeAssetKey .devnet, "bob", 3⟩ ∧
      ∃ d ∈ s.db.deposits, d.key = ("solana:devnet", "sig", 1) ∧
        ∃ p ∈ s.db.ledger, p.2.kind = .deposit ∧ p.2.referenceId = d.id ∧
          effects p.2.entries (userCustodyAvailable d.userId d.asset) +
            effects p.2.entries (houseRent d.asset) = 4 := by
  obtain ⟨s, hs, hfind, hrest⟩ : ∃ s, exec (State.step sampleConfig) State.initial
      (opened ++ settled "sig" (payment (2 ^ 53) (2 ^ 53 + 3)) ++ polled none "sig" 4 0 "d" "t") =
      some s ∧ (s.chains .devnet).find "sig" = some (payment (2 ^ 53) (2 ^ 53 + 3)) ∧
      ∃ d ∈ s.db.deposits, d.key = ("solana:devnet", "sig", 1) ∧
        ∃ p ∈ s.db.ledger, p.2.kind = .deposit ∧ p.2.referenceId = d.id ∧
          effects p.2.entries (userCustodyAvailable d.userId d.asset) +
            effects p.2.entries (houseRent d.asset) = 4 := Lib.exec_reaches (by decide +kernel)
  exact ⟨s, hs, hfind, ⟨rfl, rfl, rfl, 2 ^ 53, 2 ^ 53 + 3, rfl, rfl, by decide, rfl⟩, hrest⟩

/-- The event comes once more, to another worker. -/
def redelivered (signature : Signature) (amount : Nat) : List (Label isTokenAccount) :=
  let event := (⟨1, nativeAssetKey .devnet, "bob", amount⟩ : Transfer).event .devnet signature 7 none
  [.report ⟨.devnet, "a", "bob", none, "bob"⟩ signature event 0,
    .work (.credit .devnet (.address event 0) none) (.ids "" ""),
    .work (.credit .devnet (.wallet event 0 bobsAddress) none) (.ids "" ""),
    .work (.credit .devnet (.transaction event 0 bobsAddress bobsWallet) none) (.ids "d2" "t2")]

/-- One lamport more than the rent, and the transfer twice. -/
theorem deposits_credited_once_redelivered :
    ∃ s, exec (State.step sampleConfig) State.initial
        (opened ++ settled "sig" (payment 0 11) ++ polled none "sig" 11 10 "d" "t" ++
          redelivered "sig" 11) = some s ∧ s.db.deposits.length = 1 ∧ CreditedOnce s := by
  obtain ⟨s, hs, hlength⟩ : ∃ s, exec (State.step sampleConfig) State.initial
      (opened ++ settled "sig" (payment 0 11) ++ polled none "sig" 11 10 "d" "t" ++
        redelivered "sig" 11) = some s ∧ s.db.deposits.length = 1 :=
    Lib.exec_reaches (by decide +kernel)
  exact ⟨s, hs, hlength, deposits_credited_once hs⟩

end AtlasCex.Deposits
