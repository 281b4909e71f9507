import AtlasCex.Deposits.Once
/-!
# What a deposit address reserves for rent

`pollAddress` reserves the minimum for the first deposit of an address. Which one that is it decides
by a count of all rows of the address, tokens and ignored transfers included, and outside the
transaction that credits. So a token transfer that comes first leaves nothing reserved for the first
native one, and two polls that count at the same time both reserve.

`rent_reserved_once`: where every count comes with no other credit of the address in flight, and sees
no row before the first native one, the first credited native transfer reserves the minimum or what it
has of it, and no other row reserves anything.
-/
namespace AtlasCex.Deposits

open List
open Lib (exec Along)
open Ledger (AssetKey LedgerTransaction effects houseRent postDeposit_effects)

variable {tokenAccount : Address → Bool} {config : Config} {s t : State tokenAccount} {minimum : Nat}

/-- `NATIVE_ASSET`, on any cluster. -/
def isNative (asset : AssetKey) : Bool := asset.asset = "SOL"

/-- A native deposit that was credited. -/
def DepositRow.funds (d : DepositRow) : Bool := d.status = .credited && isNative d.asset

/-- What a row is to reserve, after the rows there were. -/
def reserves (minimum : Nat) (earlier : List DepositRow) (row : DepositRow) : Nat :=
  if row.funds && earlier.all (fun d => !(d.addressId = row.addressId && d.funds)) then
    min minimum row.amount
  else 0

/-- **Rent is reserved once**: by the first credited native row of an address. -/
def RentOnce (minimum : Nat) (deposits : List DepositRow) : Prop :=
  ∀ earlier row later, deposits = earlier ++ row :: later →
    row.rentReserved = reserves minimum earlier row

variable {row : DepositRow}

theorem RentOnce.append {deposits : List DepositRow}
    (h : RentOnce minimum deposits) (hrow : row.rentReserved = reserves minimum deposits row) :
    RentOnce minimum (deposits ++ [row]) := by
  intro earlier r later heq
  rcases eq_nil_or_concat later with rfl | ⟨later, x, rfl⟩
  · obtain ⟨rfl, hlast⟩ := append_inj' heq rfl
    cases hlast
    exact hrow
  · rw [concat_eq_append, ← cons_append, ← append_assoc] at heq
    exact h earlier r later (append_inj' heq rfl).1

/-! ## Addresses -/

/-- The address is ours, under an id. -/
def Db.Holds (db : Db) (id chain : String) (address : Address) : Prop :=
  ∃ a ∈ db.addresses, a.id = id ∧ a.chain = chain ∧ a.address = address

/-- An address has one id, and an id one address. -/
structure Places (db : Db) : Prop where
  one : ∀ {id id' chain address}, db.Holds id chain address → db.Holds id' chain address → id = id'
  same : ∀ {id chain chain' address address'}, db.Holds id chain address →
    db.Holds id chain' address' → chain = chain' ∧ address = address'

/-- The same addresses under the same ids. -/
def Db.SameHolds (db db' : Db) : Prop :=
  ∀ id chain address, db'.Holds id chain address ↔ db.Holds id chain address

variable {db db' : Db}

theorem Db.SameHolds.of_eq (h : db'.addresses = db.addresses) : db.SameHolds db' := by
  intro id chain address
  rw [Db.Holds, Db.Holds, h]

theorem Places.congr (h : Places db) (hholds : db.SameHolds db') : Places db' where
  one ha hb := h.one ((hholds _ _ _).1 ha) ((hholds _ _ _).1 hb)
  same ha hb := h.same ((hholds _ _ _).1 ha) ((hholds _ _ _).1 hb)

/-! ## Calls in flight -/

/-- A poll is of an address of ours, at itself or at a token account. -/
def PollAt (tokenAccount : Address → Bool) (db : Db) (poll : Poll) : Prop :=
  db.Holds poll.addressId (solanaChainId poll.cluster) poll.owner ∧
    (poll.scanAddress = poll.owner ∨ tokenAccount poll.scanAddress = true)

/-- What a poll can find: native transfers to the account it scans, token transfers to the owner. -/
def Found (poll : Poll) (event : TransferEvent) : Prop :=
  event.chain = solanaChainId poll.cluster ∧
    (event.tokenAccount = none ∧ event.recipient = poll.scanAddress ∨
      event.tokenAccount ≠ none ∧ event.recipient = poll.owner)

def rentOf (minimum : Nat) (poll : Poll) : Nat :=
  if poll.scanAddress = poll.owner then minimum else 0

def Credit.rent : Credit → Nat
  | .address _ rent | .wallet _ rent _ | .transaction _ rent _ _ => rent

/-- The rent a call was given is what its transfer is to reserve. -/
def Decided (minimum : Nat) (db : Db) (event : TransferEvent) (rent : Nat) : Prop :=
  ∀ id, db.Holds id event.chain event.recipient →
    (isNative event.asset = true → (rent = minimum ∧ ∀ d ∈ db.deposits, d.addressId ≠ id) ∨
      (rent = 0 ∧ ∃ d ∈ db.deposits, d.addressId = id ∧ d.funds = true)) ∧
    (isNative event.asset = false → rent = 0)

def RentOk (tokenAccount : Address → Bool) (minimum : Nat) (db : Db) : Task → Prop
  | .fetch poll => PollAt tokenAccount db poll
  | .parse poll _ transfers _ => PollAt tokenAccount db poll ∧ ∀ e ∈ transfers, Found poll e
  | .count poll event rest rent _ => PollAt tokenAccount db poll ∧
      (∀ e ∈ event :: rest, Found poll e) ∧ rent = rentOf minimum poll
  | .credit _ call next => ∃ n, next = some n ∧ PollAt tokenAccount db n.poll ∧
      (∀ e ∈ n.event :: n.rest, Found n.poll e) ∧ n.rent = rentOf minimum n.poll ∧
      call.event = n.event ∧ Decided minimum db call.event call.rent
  | .advance _ _ _ => True

/-- The address a task is crediting. -/
def Task.target : Task → Option (String × Address)
  | .credit _ call _ => some (call.event.chain, call.event.recipient)
  | _ => none

structure Rents (minimum : Nat) (s : State tokenAccount) : Prop where
  inv : Inv s
  places : Places s.db
  tasks : ∀ task ∈ s.tasks, RentOk tokenAccount minimum s.db task
  single : (s.tasks.filterMap Task.target).Nodup
  rows : RentOnce minimum s.db.deposits
  posted : ∀ d ∈ s.db.deposits, ∀ p ∈ s.db.ledger, PostingOf d p →
    effects p.2.entries (houseRent d.asset) = d.rentReserved

/-! ## Steps -/

/-- A count is taken with no other credit for the recipient in flight. A native transfer that is not
the first row finds a native one before it; a transfer in another asset is found at its token account,
or not as the first row. The network has one rent minimum, and transfers come from polls. -/
def Orderly (minimum : Nat) (s : State tokenAccount) : Label tokenAccount → Prop
  | .work (.count poll event _ _ _) _ =>
    (∀ task ∈ s.tasks, task.target ≠ some (event.chain, event.recipient)) ∧
    (isNative event.asset = true → event.tokenAccount = none ∧
      ∀ d ∈ s.db.deposits, d.addressId = poll.addressId →
        ∃ d' ∈ s.db.deposits, d'.addressId = poll.addressId ∧ d'.funds = true) ∧
    (isNative event.asset = false → poll.scanAddress ≠ poll.owner ∨
      ∃ d ∈ s.db.deposits, d.addressId = poll.addressId)
  | .work (.parse _ _ _ _) (.rent lamports) => lamports = minimum
  | .report _ _ _ _ => False
  | _ => True

instance (minimum : Nat) (s : State tokenAccount) (label : Label tokenAccount) :
    Decidable (Orderly minimum s label) :=
  match label with
  | .work (.count _ _ _ _ _) _ => inferInstanceAs (Decidable (_ ∧ _ ∧ _))
  | .work (.parse _ _ _ _) (.rent lamports) => inferInstanceAs (Decidable (lamports = minimum))
  | .report _ _ _ _ => isFalse id
  | .work (.parse _ _ _ _) .go | .work (.parse _ _ _ _) (.answer _)
  | .work (.parse _ _ _ _) (.ids _ _) | .work (.fetch _) _ | .work (.credit _ _ _) _
  | .work (.advance _ _ _) _ | .land _ _ | .confirm _ | .finalize _ | .newWallet _ | .newAddress _
  | .setActive _ _ | .setWatched _ _ | .post _ _ | .watch _ _ _ | .crash => isTrue trivial

variable {task : Task}

/-- Tables that stay as they are. -/
theorem RentOk.congr (h : RentOk tokenAccount minimum db task)
    (hholds : db.SameHolds db') (hdeposits : db'.deposits = db.deposits) :
    RentOk tokenAccount minimum db' task := by
  have hpoll : ∀ {poll}, PollAt tokenAccount db poll → PollAt tokenAccount db' poll :=
    fun h => ⟨(hholds _ _ _).2 h.1, h.2⟩
  cases task with
  | fetch poll => exact hpoll h
  | parse poll rest transfers nextCursor => exact ⟨hpoll h.1, h.2⟩
  | count poll event rest rent highest => exact ⟨hpoll h.1, h.2⟩
  | credit cluster call next =>
    obtain ⟨n, hn, hat, hfound, hrent, hevent, hdecided⟩ := h
    refine ⟨n, hn, hpoll hat, hfound, hrent, hevent, fun id hid => ?_⟩
    rw [hdeposits]
    exact hdecided id ((hholds _ _ _).1 hid)
  | advance => trivial

theorem Rents.congr (h : Rents minimum s) (hinv : Inv t) (htasks : t.tasks.Sublist s.tasks)
    (hholds : s.db.SameHolds t.db) (hdeposits : t.db.deposits = s.db.deposits)
    (hledger : t.db.ledger = s.db.ledger) : Rents minimum t where
  inv := hinv
  places := h.places.congr hholds
  tasks task htask := (h.tasks task (htasks.subset htask)).congr hholds hdeposits
  single := (htasks.filterMap _).nodup h.single
  rows := hdeposits ▸ h.rows
  posted := by
    rw [hdeposits, hledger]
    exact h.posted

/-- New tasks, none of which credits what another does. -/
theorem Rents.spawn (h : Rents minimum s) {left : List Task} (hinv : Inv (s.spawn left))
    (hleft : ∀ task ∈ left, RentOk tokenAccount minimum s.db task)
    (hsingle : (left.filterMap Task.target).Nodup)
    (hother : ∀ k ∈ left.filterMap Task.target, k ∉ s.tasks.filterMap Task.target) :
    Rents minimum (s.spawn left) where
  inv := hinv
  places := h.places
  tasks task htask := by
    rcases mem_append.1 htask with htask | htask
    · exact hleft task htask
    · exact h.tasks task htask
  single := by
    unfold State.spawn
    rw [filterMap_append, nodup_append]
    exact ⟨hsingle, h.single, fun a ha b hb hab => hother a ha (hab ▸ hb)⟩
  rows := h.rows
  posted := h.posted

variable {poll : Poll} {rest : List TransferEvent} {highest : Option (Signature × Nat)}

theorem loop_target {rent : Nat}
    :
    (loop poll rest rent highest).filterMap Task.target = [] := by
  cases rest with
  | cons event rest => rfl
  | nil => cases highest <;> rfl

/-- The loop over what a poll has found. -/
theorem Rents.loop (h : Rents minimum s) {rent : Nat}
    (hinv : Inv (s.spawn (loop poll rest rent highest)))
    (hpoll : PollAt tokenAccount s.db poll) (hrest : ∀ e ∈ rest, Found poll e)
    (hrent : rent = rentOf minimum poll) :
    Rents minimum (s.spawn (Deposits.loop poll rest rent highest)) := by
  refine h.spawn hinv ?_ ?_ ?_
  · cases rest with
    | cons event rest =>
      intro task htask
      rw [mem_singleton.1 htask]
      exact ⟨hpoll, hrest, hrent⟩
    | nil =>
      intro task htask
      obtain ⟨h, -, rfl⟩ := Option.map_eq_some_iff.1 (Option.mem_toList.1 htask)
      trivial
  · rw [loop_target]
    exact nodup_nil
  · rw [loop_target]
    exact fun _ hk => absurd hk not_mem_nil

theorem found_eventsOf {signature : Signature} {parsed : Option ParsedTransaction}
    {e : TransferEvent} (h : e ∈ eventsOf poll signature parsed) : Found poll e := by
  cases parsed with
  | none => exact absurd h not_mem_nil
  | some parsed =>
    rcases mem_append.1 h with h | h
    · simp only [parseTransfers] at h
      split at h
      · exact absurd h not_mem_nil
      · split at h
        · exact absurd h not_mem_nil
        · simp only [mem_filterMap, Option.bind_eq_bind, Option.bind_eq_some_iff,
            Option.pure_def, Option.some.injEq, Option.guard_eq_some', exists_const] at h
          obtain ⟨-, -, address, -, hwatched, -, -, -, -, -, rfl⟩ := h
          exact ⟨rfl, .inl ⟨rfl, mem_singleton.1 hwatched⟩⟩
    · simp only [parseTokenTransfers] at h
      split at h
      · exact absurd h not_mem_nil
      · split at h
        · exact absurd h not_mem_nil
        · simp only [mem_filterMap, Option.bind_eq_bind, Option.bind_eq_some_iff,
            Option.pure_def, Option.some.injEq, Option.guard_eq_some', exists_const] at h
          obtain ⟨-, -, owner, -, howned, -, -, rfl⟩ := h
          exact ⟨rfl, .inr ⟨Option.some_ne_none _, mem_singleton.1 howned⟩⟩

/-- One task that credits nothing. -/
theorem Rents.spawn_one (h : Rents minimum s) (hinv : Inv (s.spawn [task]))
    (htask : RentOk tokenAccount minimum s.db task) (htarget : task.target = none) :
    Rents minimum (s.spawn [task]) := by
  have hnone : [task].filterMap Task.target = [] := by
    rw [filterMap_cons_none htarget, filterMap_nil]
  refine h.spawn hinv ?_ ?_ ?_
  · intro task' htask'
    rw [mem_singleton.1 htask']
    exact htask
  · rw [hnone]
    exact nodup_nil
  · rw [hnone]
    exact fun _ hk => absurd hk not_mem_nil

variable {choice : Choice}

/-- What a page has, or the loop over it. -/
theorem Rents.parse (h : Rents minimum s) (hinv : Inv t) {rest : List Signature}
    {transfers : List TransferEvent} {nextCursor : Option Signature}
    (htask : RentOk tokenAccount minimum s.db (.parse poll rest transfers nextCursor))
    (hrent : ∀ lamports, choice = .rent lamports → lamports = minimum)
    (hwork : s.work config (.parse poll rest transfers nextCursor) choice = some t) :
    Rents minimum t := by
  obtain ⟨hpoll, hfound⟩ := htask
  cases rest with
  | cons signature rest =>
    cases choice with
    | answer a =>
      obtain ⟨parsed, -, rfl⟩ := Option.map_eq_some_iff.1 hwork
      refine h.spawn_one hinv ⟨hpoll, fun e he => ?_⟩ rfl
      rcases mem_append.1 he with he | he
      · exact hfound e he
      · exact found_eventsOf he
    | _ => cases hwork
  | nil =>
    cases transfers with
    | nil =>
      cases choice with
      | go =>
        obtain ⟨haddresses, -, hdeposits, hledger⟩ :=
          touch_same s.db poll.addressId poll.scanAddress
        let touched : State tokenAccount :=
          { s with db := s.db.touch poll.addressId poll.scanAddress }
        have hinvTouched : Inv touched :=
          h.inv.frame (.of_chains rfl) (.of_eq haddresses) (hdeposits ▸ h.inv.rows)
            (h.inv.booked.congr hdeposits hledger) (haddresses ▸ h.inv.wallets) fun _ => .inl
        have htouched : Rents minimum touched :=
          h.congr hinvTouched (List.Sublist.refl _) (.of_eq haddresses) hdeposits hledger
        cases nextCursor with
        | none =>
          cases hwork
          exact htouched
        | some signature =>
          simp only [State.work] at hwork
          split at hwork
          · cases hwork
            exact htouched.spawn_one hinv trivial rfl
          · cases hwork
            exact htouched
      | _ => cases hwork
    | cons event rest =>
      cases choice with
      | rent lamports =>
        cases hrent lamports rfl
        simp only [State.work] at hwork
        split at hwork
        · rename_i hscan
          split at hwork
          · cases hwork
            exact h.loop hinv hpoll hfound (if_pos hscan).symm
          · cases hwork
        · rename_i hscan
          cases hwork
          exact h.loop hinv hpoll hfound (if_neg hscan).symm
      | _ => cases hwork

variable {event : TransferEvent}

/-- The count decides, with nothing else for the recipient in flight. -/
theorem decided_count (minimum : Nat) (hplaces : Places s.db)
    (hwallets : ∀ a ∈ s.db.addresses, tokenAccount a.address = false) (hpoll : PollAt tokenAccount s.db poll)
    (hfound : Found poll event) (hnative : isNative event.asset = true → event.tokenAccount = none ∧
      ∀ d ∈ s.db.deposits, d.addressId = poll.addressId →
        ∃ d' ∈ s.db.deposits, d'.addressId = poll.addressId ∧ d'.funds = true)
    (htoken : isNative event.asset = false → poll.scanAddress ≠ poll.owner ∨
      ∃ d ∈ s.db.deposits, d.addressId = poll.addressId) :
    Decided minimum s.db event
      (if s.db.deposits.countP (·.addressId = poll.addressId) = 0 then rentOf minimum poll else 0) := by
  intro id hid
  obtain ⟨hheld, hscan⟩ := hpoll
  obtain ⟨hchain, hrecipient⟩ := hfound
  -- only the poll's own address can be credited
  have howner : event.recipient = poll.owner → id = poll.addressId := by
    intro h
    rw [hchain, h] at hid
    exact hplaces.one hid hheld
  have hours : tokenAccount event.recipient = false := by
    obtain ⟨a, ha, -, -, haddress⟩ := hid
    rw [← haddress]
    exact hwallets a ha
  have hcount : s.db.deposits.countP (·.addressId = poll.addressId) = 0 ↔
      ∀ d ∈ s.db.deposits, d.addressId ≠ poll.addressId := by
    simp only [countP_eq_zero, decide_eq_true_eq, ne_eq]
  refine ⟨fun hasset => ?_, fun hasset => ?_⟩
  · obtain ⟨hnone, hfunds⟩ := hnative hasset
    have hat : event.recipient = poll.scanAddress := by
      rcases hrecipient with ⟨-, h⟩ | ⟨hsome, -⟩
      · exact h
      · exact absurd hnone hsome
    have hself : poll.scanAddress = poll.owner := by
      rcases hscan with h | h
      · exact h
      · rw [hat, h] at hours
        cases hours
    rw [howner (hat.trans hself)]
    by_cases hzero : s.db.deposits.countP (·.addressId = poll.addressId) = 0
    · rw [if_pos hzero, rentOf, if_pos hself]
      exact .inl ⟨rfl, hcount.1 hzero⟩
    · rw [if_neg hzero]
      refine .inr ⟨rfl, ?_⟩
      rw [hcount] at hzero
      push Not at hzero
      obtain ⟨d, hd, hid'⟩ := hzero
      exact hfunds d hd hid'
  · by_cases hzero : s.db.deposits.countP (·.addressId = poll.addressId) = 0
    · rw [if_pos hzero]
      rcases htoken hasset with h | ⟨d, hd, hid'⟩
      · exact if_neg h
      · exact absurd hid' (hcount.1 hzero d hd)
    · exact if_neg hzero

theorem Rents.count (h : Rents minimum s) (hinv : Inv t) {rent : Nat}
    (htask : RentOk tokenAccount minimum s.db (.count poll event rest rent highest))
    (hfree : ∀ task ∈ s.tasks, task.target ≠ some (event.chain, event.recipient))
    (hnative : isNative event.asset = true → event.tokenAccount = none ∧
      ∀ d ∈ s.db.deposits, d.addressId = poll.addressId →
        ∃ d' ∈ s.db.deposits, d'.addressId = poll.addressId ∧ d'.funds = true)
    (htoken : isNative event.asset = false → poll.scanAddress ≠ poll.owner ∨
      ∃ d ∈ s.db.deposits, d.addressId = poll.addressId)
    (hwork : s.work config (.count poll event rest rent highest) choice = some t) :
    Rents minimum t := by
  obtain ⟨hpoll, hfound, hrent⟩ := htask
  cases choice with
  | go =>
    have hdecided := decided_count minimum h.places h.inv.wallets hpoll
      (hfound event mem_cons_self) hnative htoken
    rw [← hrent] at hdecided
    cases hwork
    by_cases hfinal : event.confirmation = .final
    · simp only [creditTransfer, hfinal, ne_eq, not_true, if_false, proceed] at hinv ⊢
      refine h.spawn hinv ?_ (nodup_singleton _) ?_
      · intro task htask
        rw [mem_singleton.1 htask]
        exact ⟨_, rfl, hpoll, hfound, hrent, rfl, hdecided⟩
      · intro k hk hmem
        rw [mem_singleton.1 hk] at hmem
        obtain ⟨task, htask, htarget⟩ := mem_filterMap.1 hmem
        exact hfree task htask htarget
    · have hback : creditTransfer event
          (if s.db.deposits.countP (·.addressId = poll.addressId) = 0 then rent else 0) =
            .back .notFinal := if_pos hfinal
      simp only [hback] at hinv ⊢
      change Inv (s.spawn (Deposits.loop poll [] rent highest)) at hinv
      exact h.loop hinv hpoll (fun _ he => absurd he not_mem_nil) hrent
  | _ => cases hwork

/-- The row a transaction enters, with its posting if it is credited. -/
structure Entered (event : TransferEvent) (rent : Nat) (addressId transactionId : String)
    (row : DepositRow) (db db' : Db) : Prop where
  deposits : db'.deposits = db.deposits ++ [row]
  addresses : db'.addresses = db.addresses
  addressId : row.addressId = addressId
  asset : row.asset = event.asset
  amount : row.amount = event.amount
  fresh : ∀ d ∈ db.deposits, d.id ≠ row.id
  ledger : (db'.ledger = db.ledger ∧ row.status = .ignored ∧ row.rentReserved = 0) ∨
    ∃ posting : LedgerTransaction, db'.ledger = db.ledger ++ [(transactionId, posting)] ∧
      posting.referenceId = row.id ∧ row.status = .credited ∧
      row.ledgerTransactionId = some transactionId ∧ (∀ p ∈ db.ledger, p.1 ≠ transactionId) ∧
      row.rentReserved = min rent event.amount ∧
      effects posting.entries (houseRent event.asset) = row.rentReserved

variable {transactionId : String}

theorem creditStep_entered {allowed : AssetKey → Bool}
    {depositId : String} {rent : Nat} {address : AddressRow}
    {wallet : WalletRow} {next : CreditNext}
    (h : db.creditStep allowed depositId transactionId (.transaction event rent address wallet) =
      some (db', next)) :
    db' = db ∨ ∃ row, Entered event rent address.id transactionId row db db' := by
  simp only [Db.creditStep, Option.ite_none_left_eq_some] at h
  obtain ⟨hfresh, h⟩ := h
  simp only [any_eq_true, decide_eq_true_eq, not_or, not_exists, not_and] at hfresh
  split at h
  · split at h
    · split at h <;> cases h
      exact .inl rfl
    · rename_i posting hposting
      split at h
      · cases h
        exact .inl rfl
      · rename_i hrecord
        cases h
        obtain ⟨-, rfl⟩ := Db.record_some hrecord
        refine .inr ⟨_, rfl, rfl, rfl, rfl, rfl, hfresh.1, .inr ⟨posting, rfl, ?_⟩⟩
        exact ⟨(Ledger.postDeposit_ok hposting).2.1, rfl, rfl, hfresh.2, rfl,
          (postDeposit_effects hposting).2⟩
  · split at h
    · cases h
      exact .inl rfl
    · rename_i hrecord
      cases h
      obtain ⟨-, rfl⟩ := Db.record_some hrecord
      exact .inr ⟨_, rfl, rfl, rfl, rfl, rfl, hfresh.1, .inl ⟨rfl, rfl, rfl⟩⟩

variable {id : String}

/-- The row reserves what was decided for it. -/
theorem Entered.reserved {rent : Nat} (h : Entered event rent id transactionId row db db')
    (hheld : db.Holds id event.chain event.recipient) (hdecided : Decided minimum db event rent) :
    row.rentReserved = reserves minimum db.deposits row := by
  obtain ⟨hnative, htoken⟩ := hdecided id hheld
  unfold reserves
  rcases h.ledger with ⟨-, hstatus, hzero⟩ | ⟨posting, -, -, hstatus, -, -, hrent, -⟩
  · rw [hzero, if_neg]
    simp [DepositRow.funds, hstatus]
  · have hfunds : row.funds = isNative event.asset := by
      simp [DepositRow.funds, hstatus, h.asset]
    rw [hrent, hfunds, h.addressId, h.amount]
    cases hasset : isNative event.asset with
    | false => rw [htoken hasset]; simp
    | true =>
      rcases hnative hasset with ⟨rfl, hfirst⟩ | ⟨rfl, d, hd, hid, hd'⟩
      · rw [if_pos]
        simpa using fun d hd => Or.inl (hfirst d hd)
      · rw [if_neg, Nat.zero_min]
        simpa using ⟨d, hd, hid, hd'⟩

/-- A call for another address is none the wiser. -/
theorem Entered.rentOk {rent : Nat} (h : Entered event rent id transactionId row db db')
    (hplaces : Places db) (hheld : db.Holds id event.chain event.recipient)
    (htask : RentOk tokenAccount minimum db task)
    (hother : task.target ≠ some (event.chain, event.recipient)) :
    RentOk tokenAccount minimum db' task := by
  have hholds := Db.SameHolds.of_eq h.addresses
  have hpoll : ∀ {poll}, PollAt tokenAccount db poll → PollAt tokenAccount db' poll :=
    fun h => ⟨(hholds _ _ _).2 h.1, h.2⟩
  cases task with
  | fetch poll => exact hpoll htask
  | parse poll rest transfers nextCursor => exact ⟨hpoll htask.1, htask.2⟩
  | count poll event rest rent highest => exact ⟨hpoll htask.1, htask.2⟩
  | advance => trivial
  | credit cluster call next =>
    obtain ⟨n, hn, hat, hfound, hrent, hevent, hdecided⟩ := htask
    refine ⟨n, hn, hpoll hat, hfound, hrent, hevent, fun id' hid' => ?_⟩
    rw [hholds] at hid'
    have hne : row.addressId ≠ id' := by
      rw [h.addressId]
      rintro rfl
      obtain ⟨hchain, hrecipient⟩ := hplaces.same hheld hid'
      exact hother (by rw [Task.target, hchain, hrecipient])
    obtain ⟨hnative, htoken⟩ := hdecided id' hid'
    refine ⟨fun hasset => ?_, htoken⟩
    rw [h.deposits]
    rcases hnative hasset with ⟨hmin, hfirst⟩ | ⟨hzero, d, hd, hd'⟩
    · refine .inl ⟨hmin, fun d hd => ?_⟩
      rcases mem_append.1 hd with hd | hd
      · exact hfirst d hd
      · rw [mem_singleton.1 hd]
        exact hne
    · exact .inr ⟨hzero, d, mem_append_left _ hd, hd'⟩

theorem Rents.enter (h : Rents minimum s) (hinv : Inv { s with db := db' }) {rent : Nat}
    (hentered : Entered event rent id transactionId row s.db db')
    (hheld : s.db.Holds id event.chain event.recipient) (hdecided : Decided minimum s.db event rent)
    (hother : (event.chain, event.recipient) ∉ s.tasks.filterMap Task.target) :
    Rents minimum { s with db := db' } where
  inv := hinv
  places := h.places.congr (.of_eq hentered.addresses)
  tasks task htask := by
    refine hentered.rentOk h.places hheld (h.tasks task htask) fun htarget => hother ?_
    exact mem_filterMap.2 ⟨task, htask, htarget⟩
  single := h.single
  rows := by
    rw [hentered.deposits]
    exact h.rows.append (hentered.reserved hheld hdecided)
  posted := by
    intro d hd p hp hposting
    rw [hentered.deposits] at hd
    rcases mem_append.1 hd with hd | hd
    · -- an old row, whose posting is not the new one
      rcases hentered.ledger with ⟨hledger, -⟩ | ⟨posting, hledger, hreference, -⟩
      · rw [hledger] at hp
        exact h.posted d hd p hp hposting
      · rw [hledger] at hp
        rcases mem_append.1 hp with hp | hp
        · exact h.posted d hd p hp hposting
        · cases mem_singleton.1 hp
          exact absurd (hposting.reference.symm.trans hreference) (hentered.fresh d hd)
    · cases mem_singleton.1 hd
      rcases hentered.ledger with ⟨-, hstatus, -⟩ |
        ⟨posting, hledger, -, -, htransaction, hunused, -, heffect⟩
      · rw [hposting.status] at hstatus
        cases hstatus
      · rw [hledger] at hp
        rcases mem_append.1 hp with hp | hp
        · have hsame := htransaction.symm.trans hposting.transaction
          exact absurd (Option.some.inj hsame).symm (hunused p hp)
        · cases mem_singleton.1 hp
          rw [hentered.asset]
          exact heffect

/-- A call that goes on has written nothing, and keeps its rent. -/
theorem creditStep_on_rent {allowed : AssetKey → Bool} {depositId : String} {call c : Credit}
    (h : db.creditStep allowed depositId transactionId call = some (db', .on c)) :
    db' = db ∧ c.rent = call.rent := by
  obtain ⟨_, _, _, rfl, rfl, -⟩ | ⟨_, _, _, _, rfl, rfl, -⟩ := Db.creditStep_cases h
  · cases Db.creditStep_writes h
    exact ⟨rfl, rfl⟩
  · cases Db.creditStep_writes h
    exact ⟨rfl, rfl⟩

theorem Rents.credit (h : Rents minimum s) (hinv : Inv t) {cluster : Cluster} {call : Credit}
    {next : Option Next}
    (htask : RentOk tokenAccount minimum s.db (.credit cluster call next)) (hok : s.db.CreditOk call)
    (hother : (call.event.chain, call.event.recipient) ∉ s.tasks.filterMap Task.target)
    (hwork : s.work config (.credit cluster call next) choice = some t) : Rents minimum t := by
  cases choice with
  | ids depositId transactionId =>
    obtain ⟨⟨db', out⟩, hcredit, rfl⟩ := Option.map_eq_some_iff.1 hwork
    have hinvMid : Inv { s with db := db' } :=
      hinv.frame (.of_chains rfl) (.of_eq rfl) hinv.rows hinv.booked hinv.wallets
        fun task htask => .inl (mem_append_right _ htask)
    obtain ⟨n, rfl, hpoll, hfound, hrent, hevent, hdecided⟩ := htask
    have hmid : Rents minimum { s with db := db' } := by
      cases call with
      | transaction event rent address wallet =>
        obtain rfl | ⟨row, hentered⟩ := creditStep_entered hcredit
        · exact h
        · exact h.enter hinvMid hentered hok hdecided hother
      | address | wallet =>
        cases Db.creditStep_writes hcredit
        exact h
    have hpollMid : PollAt tokenAccount db' n.poll := by
      refine ⟨?_, hpoll.2⟩
      rw [Db.Holds, (Writes.custody (Db.creditStep_writes hcredit)).1]
      exact hpoll.1
    cases out with
    | on c =>
      have hsame := Db.creditStep_event hcredit
      obtain ⟨rfl, hcrent⟩ := creditStep_on_rent hcredit
      refine hmid.spawn hinv ?_ (nodup_singleton _) ?_
      · intro task htask
        rw [mem_singleton.1 htask]
        refine ⟨n, rfl, hpollMid, hfound, hrent, hsame.trans hevent, ?_⟩
        rw [hsame, hcrent]
        exact hdecided
      · intro k hk
        rw [mem_singleton.1 hk, hsame]
        exact hother
    | back outcome =>
      have hrest : ∀ e ∈ n.rest, Found n.poll e := fun e he => hfound e (mem_cons_of_mem _ he)
      cases outcome with
      | notFinal =>
        change Inv (State.spawn { s with db := db' }
          (Deposits.loop n.poll [] n.rent n.highest)) at hinv
        exact hmid.loop hinv hpollMid (fun _ he => absurd he not_mem_nil) hrent
      | credited | duplicate | ignored =>
        exact hmid.loop hinv hpollMid hrest hrent
  | _ => cases hwork

/-- The task a step works on is taken out, and nothing left credits what it does. -/
theorem Rents.erase (h : Rents minimum s) (htask : task ∈ s.tasks) :
    Rents minimum { s with tasks := s.tasks.erase task } ∧
      ∀ k ∈ task.target, k ∉ (s.tasks.erase task).filterMap Task.target := by
  have hinv : Inv { s with tasks := s.tasks.erase task } :=
    h.inv.frame (.of_chains rfl) (.of_eq rfl) h.inv.rows h.inv.booked h.inv.wallets
      fun task' htask' => .inl (mem_of_mem_erase htask')
  refine ⟨h.congr hinv erase_sublist (.of_eq rfl) rfl rfl, fun k hk => ?_⟩
  have hnodup := ((perm_cons_erase htask).filterMap Task.target).nodup_iff.1 h.single
  rw [filterMap_cons_some (Option.mem_def.1 hk), nodup_cons] at hnodup
  exact hnodup.1

theorem Rents.work (h : Rents minimum s) (hinv : Inv t)
    (htask : task ∈ s.tasks) (hok : Orderly minimum s (.work task choice))
    (hwork : ({ s with tasks := s.tasks.erase task } : State tokenAccount).work config task choice =
      some t) : Rents minimum t := by
  obtain ⟨herased, hother⟩ := h.erase htask
  have hsound := h.tasks task htask
  cases task with
  | fetch poll =>
    cases choice with
    | go =>
      cases hwork
      exact herased.spawn_one hinv ⟨hsound, fun _ he => absurd he not_mem_nil⟩ rfl
    | _ => cases hwork
  | parse poll rest transfers nextCursor =>
    refine herased.parse hinv hsound ?_ hwork
    rintro lamports rfl
    exact hok
  | count poll event rest rent highest =>
    obtain ⟨hfree, hnative, htoken⟩ := hok
    exact herased.count hinv hsound (fun task' htask' => hfree task' (mem_of_mem_erase htask'))
      hnative htoken hwork
  | credit cluster call next =>
    exact herased.credit hinv hsound (h.inv.calls _ htask) (hother _ rfl) hwork
  | advance poll signature position =>
    cases choice with
    | go =>
      cases hwork
      obtain ⟨haddresses, -, hdeposits, hledger⟩ :=
        advance_same s.db poll.addressId poll.scanAddress signature position
      exact herased.congr hinv (List.Sublist.refl _) (.of_eq haddresses) hdeposits hledger
    | _ => cases hwork

/-- A new address is none a call is for. -/
theorem Rents.newAddress (h : Rents minimum s) {address : AddressRow}
    (hinv : Inv { s with db := { s.db with addresses := s.db.addresses ++ [address] } })
    (hid : ∀ a ∈ s.db.addresses, a.id ≠ address.id)
    (hnew : s.db.findByAddress address.chain address.address = none)
    (hwallet : tokenAccount address.address = false) :
    Rents minimum { s with db := { s.db with addresses := s.db.addresses ++ [address] } } := by
  let db' : Db := { s.db with addresses := s.db.addresses ++ [address] }
  have hgrows : ∀ {id chain at_}, s.db.Holds id chain at_ → db'.Holds id chain at_ := by
    rintro id chain at_ ⟨a, ha, h⟩
    exact ⟨a, mem_append_left _ ha, h⟩
  have hcases : ∀ {id chain at_}, db'.Holds id chain at_ → s.db.Holds id chain at_ ∨
      id = address.id ∧ chain = address.chain ∧ at_ = address.address := by
    rintro id chain at_ ⟨a, ha, rfl, rfl, rfl⟩
    rcases mem_append.1 ha with ha | ha
    · exact .inl ⟨a, ha, rfl, rfl, rfl⟩
    · rw [mem_singleton.1 ha]
      exact .inr ⟨rfl, rfl, rfl⟩
  have hfree : ∀ {id}, ¬ s.db.Holds id address.chain address.address := by
    rintro id ⟨a, ha, -, hchain, haddress⟩
    have := find?_eq_none.1 hnew a ha
    simp [hchain, haddress] at this
  have hfreeId : ∀ {chain at_}, ¬ s.db.Holds address.id chain at_ := by
    rintro chain at_ ⟨a, ha, h, -⟩
    exact hid a ha h
  have hpoll : ∀ {poll}, PollAt tokenAccount s.db poll → PollAt tokenAccount db' poll :=
    fun h => ⟨hgrows h.1, h.2⟩
  -- what a poll finds is for an address of ours, or for a token account
  have hother : ∀ {poll event}, PollAt tokenAccount s.db poll → Found poll event →
      ¬ (event.chain = address.chain ∧ event.recipient = address.address) := by
    rintro poll event ⟨hheld, hscan⟩ ⟨hchain, hrecipient⟩ ⟨hchain', hrecipient'⟩
    rw [← hchain, hchain'] at hheld
    rcases hrecipient with ⟨-, hat⟩ | ⟨-, hat⟩
    · rcases hscan with hself | htoken
      · rw [← hself, ← hat, hrecipient'] at hheld
        exact hfree hheld
      · rw [← hat, hrecipient', hwallet] at htoken
        cases htoken
    · rw [← hat, hrecipient'] at hheld
      exact hfree hheld
  refine ⟨hinv, ⟨?_, ?_⟩, fun task htask => ?_, h.single, h.rows, h.posted⟩
  · intro id id' chain at_ ha hb
    rcases hcases ha with ha | ⟨rfl, rfl, rfl⟩
    · rcases hcases hb with hb | ⟨rfl, rfl, rfl⟩
      · exact h.places.one ha hb
      · exact absurd ha hfree
    · rcases hcases hb with hb | ⟨rfl, -, -⟩
      · exact absurd hb hfree
      · rfl
  · intro id chain chain' at_ at' ha hb
    rcases hcases ha with ha | ⟨rfl, rfl, rfl⟩
    · rcases hcases hb with hb | ⟨rfl, rfl, rfl⟩
      · exact h.places.same ha hb
      · exact absurd ha hfreeId
    · rcases hcases hb with hb | ⟨-, rfl, rfl⟩
      · exact absurd hb hfreeId
      · exact ⟨rfl, rfl⟩
  · have hsound := h.tasks task htask
    cases task with
    | fetch poll => exact hpoll hsound
    | parse poll rest transfers nextCursor => exact ⟨hpoll hsound.1, hsound.2⟩
    | count poll event rest rent highest => exact ⟨hpoll hsound.1, hsound.2⟩
    | advance => trivial
    | credit cluster call next =>
      obtain ⟨n, hn, hat, hfound, hrent, hevent, hdecided⟩ := hsound
      refine ⟨n, hn, hpoll hat, hfound, hrent, hevent, fun id hid => ?_⟩
      rcases hcases hid with hid | ⟨-, hplace⟩
      · exact hdecided id hid
      · rw [hevent] at hplace
        exact absurd hplace (hother hat (hfound _ mem_cons_self))

theorem Rents.step (htokens : ∀ cluster owner, ∀ x ∈ config.tokenAccounts cluster owner,
      tokenAccount x = true) {label : Label tokenAccount} (h : Rents minimum s)
    (hok : Orderly minimum s label) (hstep : s.step config label = some t) : Rents minimum t := by
  have hinv := h.inv.step hstep
  cases label with
  | land cluster entry =>
    obtain ⟨-, ⟨⟩⟩ := Option.ite_none_left_eq_some.1 hstep
    exact h.congr hinv (List.Sublist.refl _) (.of_eq rfl) rfl rfl
  | confirm cluster =>
    obtain ⟨-, ⟨⟩⟩ := Option.ite_none_right_eq_some.1 hstep
    exact h.congr hinv (List.Sublist.refl _) (.of_eq rfl) rfl rfl
  | finalize cluster =>
    obtain ⟨-, ⟨⟩⟩ := Option.ite_none_right_eq_some.1 hstep
    exact h.congr hinv (List.Sublist.refl _) (.of_eq rfl) rfl rfl
  | newWallet wallet =>
    obtain ⟨-, ⟨⟩⟩ := Option.ite_none_left_eq_some.1 hstep
    exact h.congr hinv (List.Sublist.refl _) (.of_eq rfl) rfl rfl
  | newAddress address =>
    simp only [State.step, Option.ite_none_left_eq_some, Option.some.injEq, not_or,
      Bool.not_eq_true, any_eq_false, decide_eq_true_eq, Option.isSome_eq_false_iff,
      Option.isNone_iff_eq_none] at hstep
    obtain ⟨⟨hid, hnew, -, hwallet⟩, rfl⟩ := hstep
    exact h.newAddress hinv hid hnew hwallet
  | setActive walletId active =>
    cases hstep
    exact h.congr hinv (List.Sublist.refl _) (.of_eq rfl) rfl rfl
  | setWatched addressId watched =>
    cases hstep
    refine h.congr hinv (List.Sublist.refl _) (fun id chain address => ⟨?_, ?_⟩) rfl rfl
    · rintro ⟨_, hmem, hid⟩
      obtain ⟨a, ha, rfl⟩ := mem_map.1 hmem
      refine ⟨a, ha, ?_⟩
      split at hid <;> exact hid
    · rintro ⟨a, ha, hid⟩
      refine ⟨_, mem_map_of_mem ha, ?_⟩
      split <;> exact hid
  | post id transaction =>
    simp only [State.step, Option.ite_none_left_eq_some, Option.some.injEq, not_or] at hstep
    obtain ⟨⟨hkind, -⟩, rfl⟩ := hstep
    refine ⟨hinv, h.places.congr (.of_eq rfl), fun task htask => (h.tasks task htask).congr
      (.of_eq rfl) rfl, h.single, h.rows, fun d hd p hp hposting => ?_⟩
    rcases mem_append.1 hp with hp | hp
    · exact h.posted d hd p hp hposting
    · cases mem_singleton.1 hp
      exact absurd hposting.kind hkind
  | watch cluster addressId scanAddress =>
    simp only [State.step] at hstep
    split at hstep
    · cases hstep
    · rename_i row hrow
      simp only [Option.ite_none_right_eq_some, Option.some.injEq] at hstep
      obtain ⟨⟨hchain, -, hscan⟩, rfl⟩ := hstep
      refine h.spawn_one hinv ⟨⟨row, mem_of_find?_eq_some hrow, ?_, hchain, rfl⟩, ?_⟩ rfl
      · simpa using find?_some hrow
      · rcases mem_cons.1 hscan with hscan | hscan
        · exact .inl hscan
        · exact .inr (htokens _ _ _ hscan)
  | report poll signature event rent => exact hok.elim
  | work task choice =>
    simp only [State.step, Option.ite_none_right_eq_some] at hstep
    exact h.work hinv hstep.1 hok hstep.2
  | crash =>
    cases hstep
    exact h.congr hinv (nil_sublist _) (.of_eq rfl) rfl rfl

theorem Rents.initial : Rents minimum (State.initial : State tokenAccount) where
  inv := .initial
  places := by
    have hnone : ∀ {id chain address},
        ¬ (State.initial : State tokenAccount).db.Holds id chain address := by
      rintro id chain address ⟨a, ha, -⟩
      exact absurd ha not_mem_nil
    exact ⟨fun ha _ => absurd ha hnone, fun ha _ => absurd ha hnone⟩
  tasks _ htask := absurd htask not_mem_nil
  single := nodup_nil
  rows earlier row later heq := by
    cases earlier <;> cases heq
  posted _ hd := absurd hd not_mem_nil

/-- In every run whose counts are orderly, rent is reserved once for an address, and what the house is
credited for a deposit is what its row reserves. -/
theorem rent_reserved_once {labels : List (Label tokenAccount)}
    (htokens : ∀ cluster owner, ∀ x ∈ config.tokenAccounts cluster owner, tokenAccount x = true)
    (hok : Along (State.step config) (Orderly minimum) State.initial labels)
    (h : exec (State.step config) State.initial labels = some s) :
    RentOnce minimum s.db.deposits ∧
      ∀ d ∈ s.db.deposits, ∀ p ∈ s.db.ledger, p.2.kind = .deposit → p.2.referenceId = d.id →
        effects p.2.entries (houseRent d.asset) = d.rentReserved := by
  have hrents : Rents minimum s :=
    Lib.exec_inv Rents.initial (fun _ _ _ hr hlabel hstep => hr.step htokens hlabel hstep) hok h
  refine ⟨hrents.rows, fun d hd p hp hkind hreference => ?_⟩
  exact hrents.posted d hd p hp (hrents.inv.booked.posting_of hd hp hkind hreference)

/-! ## Runs -/

def bobsNative (signature : Signature) (amount : Nat) : TransferEvent :=
  (⟨1, nativeAssetKey .devnet, "bob", amount⟩ : Transfer).event .devnet signature 7 none

/-- A poll of bob's address that finds one native transfer, and credits it with the rent the count
leaves. -/
def reserved (signature : Signature) (cursor : Option Signature) (amount rent applicable : Nat)
    (depositId transactionId : String) : List (Label isTokenAccount) :=
  let poll : Poll := ⟨.devnet, "a", "bob", cursor, "bob"⟩
  let event := bobsNative signature amount
  let next : Next := ⟨poll, event, [], rent, none⟩
  [.watch .devnet "a" "bob", .work (.fetch poll) .go,
    .work (.parse poll [signature] [] (some signature)) (.answer (.parsed true)),
    .work (.parse poll [] [event] (some signature)) (.rent rent),
    .work (.count poll event [] rent none) .go,
    .work (.credit .devnet (.address event applicable) (some next)) (.ids "" ""),
    .work (.credit .devnet (.wallet event applicable bobsAddress) (some next)) (.ids "" ""),
    .work (.credit .devnet (.transaction event applicable bobsAddress bobsWallet) (some next))
      (.ids depositId transactionId),
    .work (.advance poll signature (some 7)) .go]

/-- Two payments, and a poll after each. -/
theorem rent_reserved_once_twice : ∃ s, exec (State.step sampleConfig) State.initial
    (opened ++ settled "sig1" (payment 0 11) ++ reserved "sig1" none 11 10 10 "d1" "t1" ++
      settled "sig2" (payment 11 12) ++ reserved "sig2" (some "sig1") 1 10 0 "d2" "t2") = some s ∧
    s.db.deposits.map (fun d => (d.amount, d.rentReserved)) = [(11, 10), (1, 0)] ∧
    RentOnce 10 s.db.deposits := by
  obtain ⟨s, hs, hrows⟩ : ∃ s, exec (State.step sampleConfig) State.initial
      (opened ++ settled "sig1" (payment 0 11) ++ reserved "sig1" none 11 10 10 "d1" "t1" ++
        settled "sig2" (payment 11 12) ++ reserved "sig2" (some "sig1") 1 10 0 "d2" "t2") = some s ∧
      s.db.deposits.map (fun d => (d.amount, d.rentReserved)) = [(11, 10), (1, 0)] :=
    Lib.exec_reaches (by decide +kernel)
  have htokens : ∀ cluster owner, ∀ x ∈ sampleConfig.tokenAccounts cluster owner,
      isTokenAccount x = true := by
    intro cluster owner x hx
    simp only [sampleConfig] at hx
    split at hx
    · rw [mem_singleton.1 hx]
      rfl
    · exact absurd hx not_mem_nil
  exact ⟨s, hs, hrows, (rent_reserved_once htokens (by decide +kernel) hs).1⟩

def fiveTokens : List TokenBalance := [⟨1, "USDC", some "bob", none, 5⟩]

theorem fiveTokens_single : (fiveTokens.map (·.accountIndex)).Nodup := nodup_singleton _

theorem fiveTokens_tokens : ∀ entry ∈ fiveTokens,
    ∀ address ∈ ["alice", "tokens of bob"][entry.accountIndex]?, isTokenAccount address = true := by
  simp [fiveTokens, isTokenAccount]

/-- Five tokens for bob, in a transaction that does not mention his address. -/
def tokensOnly : Executed isTokenAccount where
  slot := 7
  accountKeys := ["alice", "tokens of bob"]
  failed := false
  preBalances := [9, 2]
  postBalances := [9, 2]
  preTokenBalances := [⟨1, "USDC", some "bob", none, 0⟩]
  postTokenBalances := fiveTokens
  distinct := by decide
  same := rfl
  single := fiveTokens_single
  tokens := fiveTokens_tokens

/-- The poll of bob's token account. -/
def tokensPolled : List (Label isTokenAccount) :=
  let poll : Poll := ⟨.devnet, "a", "bob", none, "tokens of bob"⟩
  let event := (⟨1, ledgerAssetKey .devnet "USDC", "bob", 5⟩ : Transfer).event .devnet "sig1" 7
    (some "tokens of bob")
  let next : Next := ⟨poll, event, [], 0, none⟩
  [.watch .devnet "a" "tokens of bob", .work (.fetch poll) .go,
    .work (.parse poll ["sig1"] [] (some "sig1")) (.answer (.parsed true)),
    .work (.parse poll [] [event] (some "sig1")) (.rent 10),
    .work (.count poll event [] 0 none) .go,
    .work (.credit .devnet (.address event 0) (some next)) (.ids "" ""),
    .work (.credit .devnet (.wallet event 0 bobsAddress) (some next)) (.ids "" ""),
    .work (.credit .devnet (.transaction event 0 bobsAddress bobsWallet) (some next))
      (.ids "d1" "t1"),
    .work (.advance poll "sig1" (some 7)) .go]

/-- Tokens come first and are ignored, and the first native transfer then reserves nothing. -/
theorem token_row_suppresses_rent : ∃ s, exec (State.step sampleConfig) State.initial
    (opened ++ settled "sig1" tokensOnly ++ tokensPolled ++ settled "sig2" (payment 0 11) ++
      reserved "sig2" none 11 10 0 "d2" "t2") = some s ∧
    s.db.deposits.map (fun d => (d.addressId, d.funds, d.amount, d.rentReserved)) =
      [("a", false, 5, 0), ("a", true, 11, 0)] ∧
    ¬ RentOnce 10 s.db.deposits := by
  obtain ⟨s, hs, hrows, hshort⟩ : ∃ s, exec (State.step sampleConfig) State.initial
      (opened ++ settled "sig1" tokensOnly ++ tokensPolled ++ settled "sig2" (payment 0 11) ++
        reserved "sig2" none 11 10 0 "d2" "t2") = some s ∧
      s.db.deposits.map (fun d => (d.addressId, d.funds, d.amount, d.rentReserved)) =
        [("a", false, 5, 0), ("a", true, 11, 0)] ∧
      (s.db.deposits.getLast?.any fun row =>
        row.rentReserved ≠ reserves 10 s.db.deposits.dropLast row) = true :=
    Lib.exec_reaches (by decide +kernel)
  refine ⟨s, hs, hrows, fun honce => ?_⟩
  obtain ⟨row, hlast, hne⟩ := (Option.any_eq_true _ _).1 hshort
  refine of_decide_eq_true hne (honce s.db.deposits.dropLast row [] ?_)
  exact (dropLast_append_getLast? row hlast).symm

end AtlasCex.Deposits
