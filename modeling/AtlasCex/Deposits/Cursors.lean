import AtlasCex.Deposits.Once
/-!
# No cursor passes a deposit that is not recorded

A page is what is left to do before the cursor may move (`Pending`): every transfer to the owner in the
first `n` transactions is recorded, or its signature is still to be parsed, or its event is still to be
credited. It holds of a page that was read whole, and each answer and each call keeps it.

A page is not always read whole. `fetchTransfers` lists the *newest* signatures after the cursor, steps
over an answer that is not there, and is given the cursor of the deposit address for every account it
scans; a wallet that is not active leaves no row. `Sound` excludes each of these where it happens;
`burst_skipped` is the first of them.
-/
namespace AtlasCex.Deposits

open List
open Lib (exec Along exec_inv)

variable {tokenAccount : Address → Bool} {config : Config} {s t : State tokenAccount}

/-! ## Positions -/

structure ChainOk (chain : Chain tokenAccount) : Prop where
  distinct : (chain.landed.map (·.signature)).Nodup
  ordered : chain.finalized ≤ chain.confirmed
  bounded : chain.confirmed ≤ chain.landed.length

section Positions

variable {chain chain' : Chain tokenAccount} {signature : Signature} {entry : Landed tokenAccount}

theorem position_lt {i : Nat} (h : chain.position signature = some i) : i < chain.landed.length :=
  (findIdx?_eq_some_iff_getElem.1 h).1

theorem upTo_le (until_ : Option Signature) : chain.upTo until_ ≤ chain.landed.length := by
  unfold Chain.upTo
  cases hp : until_.bind chain.position with
  | none => simp
  | some i =>
    obtain ⟨signature, -, hposition⟩ := Option.bind_eq_some_iff.1 hp
    exact position_lt hposition

/-- A transaction is found by its signature, and nowhere else. -/
theorem find_iff (h : ChainOk chain) {x : Executed tokenAccount} :
    chain.find signature = some x ↔ ⟨signature, x⟩ ∈ chain.landed := by
  constructor
  · intro hfind
    obtain ⟨entry, hentry, rfl⟩ := Option.map_eq_some_iff.1 hfind
    obtain rfl : entry.signature = signature := by simpa using find?_some hentry
    exact mem_of_find?_eq_some hentry
  · intro hmem
    have hsome : (chain.landed.find? (·.signature = signature)).isSome = true := by
      simp only [find?_isSome, decide_eq_true_eq]
      exact ⟨_, hmem, rfl⟩
    obtain ⟨found, hfound⟩ := Option.isSome_iff_exists.1 hsome
    have hsame : found = ⟨signature, x⟩ :=
      inj_on_of_nodup_map h.distinct (mem_of_find?_eq_some hfound) hmem
        (by simpa using find?_some hfound)
    simp [Chain.find, hfound, hsame]

/-- The signature of a transaction among the first `n` is among the first `n`. -/
theorem position_of_mem (h : ChainOk chain) {n : Nat} (hmem : entry ∈ chain.landed.take n) :
    ∃ i, chain.position entry.signature = some i ∧ i < n := by
  obtain ⟨i, hi, hget⟩ := mem_iff_getElem.1 hmem
  obtain ⟨hin, hi'⟩ : i < n ∧ i < chain.landed.length := by simpa using hi
  have hget' : chain.landed[i] = entry := by simpa using hget
  refine ⟨i, findIdx?_eq_some_iff_getElem.2 ⟨hi', by simp [hget'], fun j hj hsignature => ?_⟩, hin⟩
  have hj' : j < chain.landed.length := hj.trans hi'
  have hsame : chain.landed[j] = chain.landed[i] :=
    inj_on_of_nodup_map h.distinct (getElem_mem hj') (getElem_mem hi')
      (by simpa [hget'] using hsignature)
  exact absurd (h.distinct.of_map.getElem_inj_iff.1 hsame) (Nat.ne_of_lt hj)

theorem position_append {more : List (Landed tokenAccount)}
    (hmore : chain'.landed = chain.landed ++ more) {i : Nat} (h : chain.position signature = some i) :
    chain'.position signature = some i := by
  unfold Chain.position at h ⊢
  simp [hmore, findIdx?_append, h]

end Positions

/-! ## Coverage -/

def Recorded (s : State tokenAccount) (cluster : Cluster) (signature : Signature) (index : Nat) :
    Prop :=
  ∃ d ∈ s.db.deposits, d.key = (solanaChainId cluster, signature, index)

/-- Of the first `n` transactions, those that mention the scanned account leave nothing to record. -/
def CoveredTo (s : State tokenAccount) (cluster : Cluster) (owner scan : Address) (n : Nat) : Prop :=
  ∀ entry ∈ (s.chains cluster).landed.take n, scan ∈ entry.executed.accountKeys →
    ∀ transfer, Carries cluster entry.executed transfer → transfer.recipient = owner →
      Recorded s cluster entry.signature transfer.index

/-- **No deposit is skipped**: everything up to a stored cursor is recorded. -/
def NoneSkipped (s : State tokenAccount) : Prop :=
  ∀ cursor ∈ s.db.cursors, ∀ a ∈ s.db.addresses, a.id = cursor.addressId →
    ∀ cluster, a.chain = solanaChainId cluster →
      CoveredTo s cluster a.address cursor.scanAddress
        ((s.chains cluster).upTo cursor.lastSignature)

def Within (s : State tokenAccount) (cluster : Cluster) (n : Nat) (signature : Signature) : Prop :=
  ∃ i, (s.chains cluster).position signature = some i ∧ i < n

/-- Transactions, rows and addresses stay. -/
structure Grows (s t : State tokenAccount) : Prop where
  landed : ∀ cluster, ∃ more, (t.chains cluster).landed = (s.chains cluster).landed ++ more
  deposits : s.db.deposits ⊆ t.db.deposits
  addresses : s.db.Keeps t.db

section Mono

variable {cluster : Cluster} {owner scan : Address} {m n : Nat} {signature : Signature}

theorem Recorded.mono {index : Nat} (h : Recorded s cluster signature index) (hg : Grows s t) :
    Recorded t cluster signature index := by
  obtain ⟨d, hd, hkey⟩ := h
  exact ⟨d, hg.deposits hd, hkey⟩

theorem Within.mono (h : Within s cluster n signature) (hg : Grows s t) :
    Within t cluster n signature := by
  obtain ⟨i, hi, hn⟩ := h
  obtain ⟨more, hmore⟩ := hg.landed cluster
  exact ⟨i, position_append hmore hi, hn⟩

theorem Grows.take (hg : Grows s t) (hn : n ≤ (s.chains cluster).landed.length) :
    (t.chains cluster).landed.take n = (s.chains cluster).landed.take n := by
  obtain ⟨more, hmore⟩ := hg.landed cluster
  rw [hmore, take_append_of_le_length hn]

theorem Grows.length_le (hg : Grows s t) (hn : n ≤ (s.chains cluster).landed.length) :
    n ≤ (t.chains cluster).landed.length := by
  obtain ⟨more, hmore⟩ := hg.landed cluster
  rw [hmore, length_append]
  omega

theorem CoveredTo.mono (h : CoveredTo s cluster owner scan n) (hg : Grows s t)
    (hn : n ≤ (s.chains cluster).landed.length) : CoveredTo t cluster owner scan n := by
  intro entry hentry hscan transfer hcarries howner
  rw [hg.take hn] at hentry
  exact (h entry hentry hscan transfer hcarries howner).mono hg

theorem CoveredTo.le (h : CoveredTo s cluster owner scan n) (hmn : m ≤ n) :
    CoveredTo s cluster owner scan m :=
  fun entry hentry => h entry (take_subset_take_left _ hmn hentry)

theorem coveredTo_zero : CoveredTo s cluster owner scan 0 := by
  intro entry hentry
  simp at hentry

theorem Within.upTo_le (h : Within s cluster n signature) :
    (s.chains cluster).upTo (some signature) ≤ n := by
  obtain ⟨i, hi, hn⟩ := h
  simp only [Chain.upTo, Option.bind_some, hi, Option.map_some, Option.getD_some]
  exact hn

/-- A signature that is known stays where it is. -/
theorem Grows.upTo (hg : Grows s t) {until_ : Option Signature}
    (hknown : ∀ signature ∈ until_, ((s.chains cluster).position signature).isSome = true) :
    (t.chains cluster).upTo until_ = (s.chains cluster).upTo until_ := by
  cases until_ with
  | none => rfl
  | some signature =>
    obtain ⟨i, hi⟩ := Option.isSome_iff_exists.1 (hknown signature rfl)
    obtain ⟨more, hmore⟩ := hg.landed cluster
    simp [Chain.upTo, hi, position_append hmore hi]

end Mono

/-! ## Pages -/

/-- The event of a transfer to the owner. -/
structure EventOf (e : TransferEvent) (poll : Poll) (signature : Signature) (index : Nat) : Prop where
  chain : e.chain = solanaChainId poll.cluster
  reference : e.txReference = signature
  index : e.instructionIndex = index
  recipient : e.recipient = poll.owner

/-- What is left to do before the cursor may move to one of the first `n` transactions. -/
structure Pending (s : State tokenAccount) (poll : Poll) (n : Nat) (signatures : List Signature)
    (events : List TransferEvent) : Prop where
  bound : n ≤ (s.chains poll.cluster).landed.length
  covered : ∀ entry ∈ (s.chains poll.cluster).landed.take n,
    poll.scanAddress ∈ entry.executed.accountKeys →
    ∀ transfer, Carries poll.cluster entry.executed transfer → transfer.recipient = poll.owner →
      Recorded s poll.cluster entry.signature transfer.index ∨ entry.signature ∈ signatures ∨
        ∃ e ∈ events, EventOf e poll entry.signature transfer.index
  signatures : ∀ signature ∈ signatures, Within s poll.cluster n signature
  events : ∀ e ∈ events, Within s poll.cluster n e.txReference ∧ e.confirmation = .final

variable {poll : Poll} {n : Nat} {signatures : List Signature} {events : List TransferEvent}

theorem Pending.mono (h : Pending s poll n signatures events) (hg : Grows s t) :
    Pending t poll n signatures events where
  bound := hg.length_le h.bound
  covered entry hentry hscan transfer hcarries howner := by
    rw [hg.take h.bound] at hentry
    exact (h.covered entry hentry hscan transfer hcarries howner).imp_left (·.mono hg)
  signatures signature hsignature := (h.signatures signature hsignature).mono hg
  events e he := ⟨(h.events e he).1.mono hg, (h.events e he).2⟩

theorem Pending.done (h : Pending s poll n [] []) :
    CoveredTo s poll.cluster poll.owner poll.scanAddress n := by
  intro entry hentry hscan transfer hcarries howner
  obtain hrecorded | hnone | ⟨e, he, -⟩ := h.covered entry hentry hscan transfer hcarries howner
  · exact hrecorded
  · cases hnone
  · cases he

/-- An event is dealt with: recorded, or not one to the owner. -/
theorem Pending.recorded {e : TransferEvent} (h : Pending s poll n [] (e :: events))
    (hrecorded : e.chain = solanaChainId poll.cluster → e.recipient = poll.owner →
      Recorded s poll.cluster e.txReference e.instructionIndex) : Pending s poll n [] events where
  bound := h.bound
  covered entry hentry hscan transfer hcarries howner := by
    obtain hold | hnone | ⟨e', he', hevent⟩ := h.covered entry hentry hscan transfer hcarries howner
    · exact .inl hold
    · cases hnone
    · obtain rfl | he' := mem_cons.1 he'
      · refine .inl ?_
        rw [← hevent.reference, ← hevent.index]
        exact hrecorded hevent.chain hevent.recipient
      · exact .inr (.inr ⟨e', he', hevent⟩)
  signatures := nofun
  events e' he' := h.events e' (mem_cons_of_mem _ he')

/-! ### A page that is read whole -/

variable {chain : Chain tokenAccount}

theorem ChainOk.visible_le (h : ChainOk chain) (finality : Commitment) :
    chain.visible finality ≤ chain.landed.length := by
  unfold Chain.visible
  split
  · exact h.ordered.trans h.bounded
  · exact h.bounded

variable {entry : Landed tokenAccount}

/-- What is listed is settled enough: the second filter of `fetchTransfers` drops nothing. -/
theorem ChainOk.meets (h : ChainOk chain) {commitment : Commitment}
    (hentry : entry ∈ chain.landed.take (chain.visible (toFinality commitment))) :
    meetsCommitment (chain.status entry.signature) commitment = true := by
  obtain ⟨i, hi, hn⟩ := position_of_mem h hentry
  cases commitment with
  | processed => simp [meetsCommitment, Commitment.rank]
  | confirmed =>
    have hconfirmed : i < chain.confirmed := by simpa [toFinality, Chain.visible] using hn
    simp only [meetsCommitment, Chain.status, hi, Option.any_some, hconfirmed, decide_true, if_true,
      decide_eq_true_eq]
    split <;> simp [Commitment.rank]
  | finalized =>
    have hfinalized : i < chain.finalized := by simpa [toFinality, Chain.visible] using hn
    simp [meetsCommitment, Chain.status, hi, hfinalized]

/-- No more signatures after the cursor than fit a page. -/
def Complete (config : Config) (s : State tokenAccount) (poll : Poll) : Prop :=
  ((s.chains poll.cluster).after poll.scanAddress poll.cursor (toFinality config.commitment)).length ≤
    min config.pageSize 1000

theorem mem_page_iff (hcomplete : Complete config s poll) :
    entry ∈ s.page config poll ↔
      entry ∈ (s.chains poll.cluster).after poll.scanAddress poll.cursor
        (toFinality config.commitment) ∧ entry.executed.failed = false ∧
      meetsCommitment ((s.chains poll.cluster).status entry.signature) config.commitment = true := by
  have hall : ((s.chains poll.cluster).after poll.scanAddress poll.cursor
      (toFinality config.commitment)).reverse.length ≤ min config.pageSize 1000 := by
    simpa [Complete] using hcomplete
  simp [State.page, Chain.signaturesFor, take_of_length_le hall]

variable {cluster : Cluster} {x : Executed tokenAccount}

theorem Carries.success {transfer : Transfer}
    (h : Carries cluster x transfer) : x.failed = false := by
  obtain h | h := h
  · exact h.success
  · exact h.success

theorem page_pending (hchain : ChainOk (s.chains poll.cluster)) (hcomplete : Complete config s poll)
    (hcovered : CoveredTo s poll.cluster poll.owner poll.scanAddress
      ((s.chains poll.cluster).upTo poll.cursor)) :
    Pending s poll ((s.chains poll.cluster).visible (toFinality config.commitment))
      ((s.page config poll).map (·.signature)) [] where
  bound := hchain.visible_le _
  covered entry hentry hscan transfer hcarries howner := by
    have hsplit := hentry
    rw [← take_append_drop ((s.chains poll.cluster).upTo poll.cursor)
      ((s.chains poll.cluster).landed.take _), mem_append, take_take] at hsplit
    obtain hold | hnew := hsplit
    · -- at or before the cursor
      refine .inl (hcovered entry ?_ hscan transfer hcarries howner)
      exact take_subset_take_left _ (Nat.min_le_left _ _) hold
    · -- listed
      refine .inr (.inl (mem_map_of_mem ((mem_page_iff hcomplete).2 ⟨?_, ?_, ?_⟩)))
      · exact mem_filter.2 ⟨hnew, by simpa using hscan⟩
      · exact hcarries.success
      · exact hchain.meets hentry
  signatures signature hsignature := by
    obtain ⟨entry, hentry, rfl⟩ := mem_map.1 hsignature
    have hafter := ((mem_page_iff hcomplete).1 hentry).1
    exact position_of_mem hchain (drop_subset _ _ (mem_filter.1 hafter).1)
  events := nofun

/-! ### An answer -/

/-- The answer is there, the balances of the owner are read exactly, and a scan of a token account
finds no native transfer to the owner that the scan of the owner has not recorded. -/
def Readable (s : State tokenAccount) (poll : Poll) (signature : Signature) (answer : RpcAnswer) :
    Prop :=
  answer = .parsed true ∧ ∀ x ∈ (s.chains poll.cluster).find signature,
    (∀ index < x.accountKeys.length, x.accountKeys[index]? = some poll.owner → x.Exact index) ∧
    (poll.scanAddress = poll.owner ∨
      ∀ e ∈ parseTransfers (x.parsed true) [poll.owner] signature poll.cluster,
        ∃ d ∈ s.db.deposits, d.key = (e.chain, e.txReference, e.instructionIndex))

variable {signature : Signature}

theorem event_final {e : TransferEvent} (h : e ∈ eventsOf poll signature (some (x.parsed true))) :
    e.txReference = signature ∧ e.confirmation = .final := by
  obtain ⟨transfer, account, -, rfl⟩ := mem_eventsOf h
  exact ⟨rfl, rfl⟩

/-- Each transfer to the owner that an answer carries gives an event, or is recorded already. -/
theorem readable_event (h : Readable s poll signature (.parsed true))
    (hx : (s.chains poll.cluster).find signature = some x) {transfer : Transfer}
    (hcarries : Carries poll.cluster x transfer) (howner : transfer.recipient = poll.owner) :
    Recorded s poll.cluster signature transfer.index ∨
      ∃ e ∈ eventsOf poll signature (some (x.parsed true)), EventOf e poll signature transfer.index := by
  obtain ⟨hexact, hnative⟩ := h.2 x hx
  obtain hcarries | hcarries := hcarries
  · have hindex : x.Exact transfer.index := by
      have haccount := hcarries.account
      rw [howner] at haccount
      exact hexact _ (List.getElem?_eq_some_iff.1 haccount).1 haccount
    have hreported := (CarriesNative.reported_iff hindex).2 hcarries
    have hevent : ∀ watched, transfer.recipient ∈ watched →
        transfer.event poll.cluster signature x.slot none ∈
          parseTransfers (x.parsed true) watched signature poll.cluster := fun watched hwatched =>
      mem_parseTransfers.2 ⟨transfer, hreported, hwatched, rfl⟩
    obtain hscan | hrecorded := hnative
    · refine .inr ⟨_, mem_append_left _ (hevent _ ?_), rfl, rfl, rfl, howner⟩
      rw [hscan, howner]
      exact mem_singleton_self _
    · obtain ⟨d, hd, hkey⟩ := hrecorded _ (hevent [poll.owner] (by simp [howner]))
      exact .inl ⟨d, hd, hkey⟩
  · refine .inr ⟨_, mem_append_right _ (mem_parseTokenTransfers.2
      ⟨transfer, hcarries, by simp [howner], rfl⟩), rfl, rfl, rfl, howner⟩

theorem Pending.answer (hchain : ChainOk (s.chains poll.cluster))
    (h : Pending s poll n (signature :: signatures) events)
    (hx : (s.chains poll.cluster).find signature = some x)
    (hreadable : Readable s poll signature (.parsed true)) :
    Pending s poll n signatures (events ++ eventsOf poll signature (some (x.parsed true))) where
  bound := h.bound
  covered entry hentry hscan transfer hcarries howner := by
    obtain hold | hlisted | ⟨e, he, hevent⟩ :=
      h.covered entry hentry hscan transfer hcarries howner
    · exact .inl hold
    · obtain hsame | hlisted := mem_cons.1 hlisted
      · -- the one that was answered
        obtain ⟨_, x'⟩ := entry
        subst hsame
        have hentry' := (find_iff hchain).2 (take_subset _ _ hentry)
        obtain rfl := Option.some.inj (hx.symm.trans hentry')
        obtain hrecorded | ⟨e, he, hevent⟩ := readable_event hreadable hx hcarries howner
        · exact .inl hrecorded
        · exact .inr (.inr ⟨e, mem_append_right _ he, hevent⟩)
      · exact .inr (.inl hlisted)
    · exact .inr (.inr ⟨e, mem_append_left _ he, hevent⟩)
  signatures other hother := h.signatures other (mem_cons_of_mem _ hother)
  events e he := by
    obtain he | he := mem_append.1 he
    · exact h.events e he
    · obtain ⟨hreference, hfinal⟩ := event_final he
      rw [hreference]
      exact ⟨h.signatures signature mem_cons_self, hfinal⟩

/-! ## Tasks -/

/-- A poll is of an address we hold, from a signature that is on its chain. -/
structure PollOk (s : State tokenAccount) (poll : Poll) : Prop where
  address : ∃ a ∈ s.db.addresses, a.id = poll.addressId ∧ a.chain = solanaChainId poll.cluster ∧
    a.address = poll.owner
  known : ∀ signature ∈ poll.cursor, ((s.chains poll.cluster).position signature).isSome = true

def TaskOk (s : State tokenAccount) : Task → Prop
  | .fetch poll => PollOk s poll ∧ (poll.scanAddress = poll.owner →
      CoveredTo s poll.cluster poll.owner poll.scanAddress ((s.chains poll.cluster).upTo poll.cursor))
  | .parse poll rest transfers nextCursor => PollOk s poll ∧ ∃ n, Pending s poll n rest transfers ∧
      ∀ signature, nextCursor = some signature → nextCursor ≠ poll.cursor →
        Within s poll.cluster n signature
  | .count poll event rest _ _ => PollOk s poll ∧ ∃ n, Pending s poll n [] (event :: rest)
  | .credit _ _ none => True
  | .credit _ call (some next) => PollOk s next.poll ∧ call.event = next.event ∧
      ∃ n, Pending s next.poll n [] (next.event :: next.rest)
  | .advance poll signature _ => PollOk s poll ∧ ∃ n ≤ (s.chains poll.cluster).landed.length,
      CoveredTo s poll.cluster poll.owner poll.scanAddress n ∧ Within s poll.cluster n signature

theorem PollOk.mono (h : PollOk s poll) (hg : Grows s t) : PollOk t poll := by
  obtain ⟨⟨a, ha, hid, hchain, haddress⟩, hknown⟩ := h
  obtain ⟨b, hb, hbid, hbchain, hbaddress⟩ := hg.addresses a ha
  refine ⟨⟨b, hb, hbid.trans hid, hbchain.trans hchain, hbaddress.trans haddress⟩, ?_⟩
  intro signature hsignature
  obtain ⟨i, hi⟩ := Option.isSome_iff_exists.1 (hknown signature hsignature)
  obtain ⟨more, hmore⟩ := hg.landed poll.cluster
  rw [position_append hmore hi]
  rfl

variable {task : Task}

theorem TaskOk.mono (h : TaskOk s task) (hg : Grows s t) : TaskOk t task := by
  cases task with
  | fetch poll =>
    obtain ⟨hpoll, hcovered⟩ := h
    refine ⟨hpoll.mono hg, fun hscan => ?_⟩
    rw [hg.upTo hpoll.known]
    exact (hcovered hscan).mono hg (upTo_le _)
  | parse poll rest transfers nextCursor =>
    obtain ⟨hpoll, n, hpending, hnext⟩ := h
    exact ⟨hpoll.mono hg, n, hpending.mono hg, fun signature hs hne => (hnext signature hs hne).mono hg⟩
  | count poll event rest rent highest =>
    obtain ⟨hpoll, n, hpending⟩ := h
    exact ⟨hpoll.mono hg, n, hpending.mono hg⟩
  | credit cluster call next =>
    cases next with
    | none => trivial
    | some next =>
      obtain ⟨hpoll, hevent, n, hpending⟩ := h
      exact ⟨hpoll.mono hg, hevent, n, hpending.mono hg⟩
  | advance poll signature position =>
    obtain ⟨hpoll, n, hn, hcovered, hwithin⟩ := h
    exact ⟨hpoll.mono hg, n, hg.length_le hn, hcovered.mono hg hn, hwithin.mono hg⟩

variable {rest : List TransferEvent}

/-- The loop, when what came before the rest is done. -/
theorem loop_taskOk {rent : Nat} {highest : Option (Signature × Nat)}
    (hpoll : PollOk s poll) (hpending : Pending s poll n [] rest)
    (hhighest : ∀ h ∈ highest, Within s poll.cluster n h.1)
    (htask : task ∈ loop poll rest rent highest) : TaskOk s task := by
  unfold loop at htask
  split at htask
  · obtain rfl := mem_singleton.1 htask
    exact ⟨hpoll, n, hpending⟩
  · simp only [Option.mem_toList, Option.map_eq_some_iff] at htask
    obtain ⟨h, hh, rfl⟩ := htask
    exact ⟨hpoll, n, hpending.bound, hpending.done, hhighest h hh⟩

/-! ## The invariant -/

structure Covered (s : State tokenAccount) : Prop where
  chains : ∀ cluster, ChainOk (s.chains cluster)
  ids : (s.db.addresses.map (·.id)).Nodup
  owned : ∀ cursor ∈ s.db.cursors, ∃ a ∈ s.db.addresses, a.id = cursor.addressId
  known : ∀ cursor ∈ s.db.cursors, ∀ a ∈ s.db.addresses, a.id = cursor.addressId →
    ∀ cluster, a.chain = solanaChainId cluster → ∀ signature ∈ cursor.lastSignature,
      ((s.chains cluster).position signature).isSome = true
  noneSkipped : NoneSkipped s
  tasks : ∀ task ∈ s.tasks, TaskOk s task

/-- An address that is there now was there before, or no cursor is its own. -/
def OldAddresses (s t : State tokenAccount) : Prop :=
  ∀ a ∈ t.db.addresses,
    (∃ b ∈ s.db.addresses, b.id = a.id ∧ b.chain = a.chain ∧ b.address = a.address) ∨
      ∀ cursor ∈ s.db.cursors, a.id ≠ cursor.addressId

theorem OldAddresses.of_eq (h : t.db.addresses = s.db.addresses) : OldAddresses s t :=
  fun a ha => .inl ⟨a, h ▸ ha, rfl, rfl, rfl⟩

/-- Cursors stay where they are. -/
theorem Covered.frame (h : Covered s) (hg : Grows s t) (hchains : ∀ cluster, ChainOk (t.chains cluster))
    (hids : (t.db.addresses.map (·.id)).Nodup) (hcursors : t.db.cursors = s.db.cursors)
    (hold : OldAddresses s t) (htasks : ∀ task ∈ t.tasks, task ∈ s.tasks ∨ TaskOk t task) :
    Covered t where
  chains := hchains
  ids := hids
  owned cursor hcursor := by
    obtain ⟨a, ha, hid⟩ := h.owned cursor (hcursors ▸ hcursor)
    obtain ⟨b, hb, hbid, -⟩ := hg.addresses a ha
    exact ⟨b, hb, hbid.trans hid⟩
  known cursor hcursor a ha hid cluster hchain signature hsignature := by
    rw [hcursors] at hcursor
    obtain ⟨b, hb, hbid, hbchain, -⟩ | hnew := hold a ha
    · have hknown := h.known cursor hcursor b hb (hbid.trans hid) cluster (hbchain.trans hchain)
        signature hsignature
      obtain ⟨i, hi⟩ := Option.isSome_iff_exists.1 hknown
      obtain ⟨more, hmore⟩ := hg.landed cluster
      rw [position_append hmore hi]
      rfl
    · exact absurd hid (hnew cursor hcursor)
  noneSkipped cursor hcursor a ha hid cluster hchain := by
    rw [hcursors] at hcursor
    obtain ⟨b, hb, hbid, hbchain, hbaddress⟩ | hnew := hold a ha
    · have hcovered := h.noneSkipped cursor hcursor b hb (hbid.trans hid) cluster (hbchain.trans hchain)
      rw [hg.upTo (h.known cursor hcursor b hb (hbid.trans hid) cluster (hbchain.trans hchain)),
        ← hbaddress]
      exact hcovered.mono hg (upTo_le _)
    · exact absurd hid (hnew cursor hcursor)
  tasks task htask := by
    obtain hold | hnew := htasks task htask
    · exact (h.tasks task hold).mono hg
    · exact hnew

theorem Grows.of_eq (hchains : t.chains = s.chains) (hdeposits : s.db.deposits ⊆ t.db.deposits)
    (haddresses : t.db.addresses = s.db.addresses) : Grows s t :=
  ⟨fun cluster => ⟨[], by simp [hchains]⟩, hdeposits, .of_eq haddresses⟩

/-! ### Cursors -/

/-- A cursor that may be stored. -/
structure CursorOk (s : State tokenAccount) (cursor : CursorRow) : Prop where
  owned : ∃ a ∈ s.db.addresses, a.id = cursor.addressId
  covered : ∀ a ∈ s.db.addresses, a.id = cursor.addressId → ∀ cluster,
    a.chain = solanaChainId cluster →
      (∀ signature ∈ cursor.lastSignature,
        ((s.chains cluster).position signature).isSome = true) ∧
      CoveredTo s cluster a.address cursor.scanAddress ((s.chains cluster).upTo cursor.lastSignature)

theorem Covered.setCursors (h : Covered s) {cursors : List CursorRow}
    (hnew : ∀ cursor ∈ cursors, cursor ∈ s.db.cursors ∨ CursorOk s cursor) :
    Covered { s with db := { s.db with cursors := cursors } } where
  chains := h.chains
  ids := h.ids
  owned cursor hcursor := by
    obtain hold | hnew := hnew cursor hcursor
    · exact h.owned cursor hold
    · exact hnew.owned
  known cursor hcursor a ha hid cluster hchain := by
    obtain hold | hnew := hnew cursor hcursor
    · exact h.known cursor hold a ha hid cluster hchain
    · exact (hnew.covered a ha hid cluster hchain).1
  noneSkipped cursor hcursor a ha hid cluster hchain := by
    obtain hold | hnew := hnew cursor hcursor
    · exact h.noneSkipped cursor hold a ha hid cluster hchain
    · exact (hnew.covered a ha hid cluster hchain).2
  tasks task htask := (h.tasks task htask).mono (.of_eq rfl (List.Subset.refl _) rfl)

/-- The cursor of a poll. -/
theorem Covered.cursorOk (h : Covered s) (hpoll : PollOk s poll) {lastSignature : Option Signature}
    {position : Option Nat}
    (hknown : ∀ signature ∈ lastSignature,
      ((s.chains poll.cluster).position signature).isSome = true)
    (hcovered : CoveredTo s poll.cluster poll.owner poll.scanAddress
      ((s.chains poll.cluster).upTo lastSignature)) :
    CursorOk s ⟨poll.addressId, poll.scanAddress, lastSignature, position⟩ := by
  obtain ⟨⟨b, hb, hbid, hbchain, hbaddress⟩, -⟩ := hpoll
  refine ⟨⟨b, hb, hbid⟩, fun a ha hid cluster hchain => ?_⟩
  obtain rfl : a = b := inj_on_of_nodup_map h.ids ha hb (hid.trans hbid.symm)
  obtain rfl := solanaChainId_inj (hchain.symm.trans hbchain)
  rw [hbaddress]
  exact ⟨hknown, hcovered⟩

theorem Covered.touch (h : Covered s) (hpoll : PollOk s poll) :
    Covered { s with db := s.db.touch poll.addressId poll.scanAddress } := by
  unfold Db.touch
  split
  · exact h
  · refine h.setCursors fun cursor hcursor => ?_
    obtain hcursor | hcursor := mem_append.1 hcursor
    · exact .inl hcursor
    · obtain rfl := mem_singleton.1 hcursor
      exact .inr (h.cursorOk hpoll nofun coveredTo_zero)

theorem Covered.advance (h : Covered s) {position : Option Nat}
    (htask : TaskOk s (.advance poll signature position)) :
    Covered { s with db := s.db.advance poll.addressId poll.scanAddress signature position } := by
  obtain ⟨hpoll, n, hn, hcovered, hwithin⟩ := htask
  have hok : CursorOk s ⟨poll.addressId, poll.scanAddress, some signature, position⟩ := by
    refine h.cursorOk hpoll ?_ (hcovered.le hwithin.upTo_le)
    rintro _ ⟨⟩
    obtain ⟨i, hi, -⟩ := hwithin
    rw [hi]
    rfl
  unfold Db.advance
  split
  · refine h.setCursors fun cursor hcursor => ?_
    obtain ⟨old, hold, rfl⟩ := mem_map.1 hcursor
    split
    · exact .inr hok
    · exact .inl hold
  · refine h.setCursors fun cursor hcursor => ?_
    obtain hcursor | hcursor := mem_append.1 hcursor
    · exact .inl hcursor
    · obtain rfl := mem_singleton.1 hcursor
      exact .inr hok

/-! ## Steps -/

/-- An account that is scanned for an owner is scanned from no later than its own cursor. -/
def OwnCursor (s : State tokenAccount) (poll : Poll) : Prop :=
  poll.scanAddress = poll.owner ∨ (s.chains poll.cluster).upTo poll.cursor ≤
    (s.chains poll.cluster).upTo (s.db.cursorOf poll.addressId poll.scanAddress)

/-- The wallet of an address is there and active. -/
def ActiveWallet (s : State tokenAccount) (address : AddressRow) : Prop :=
  (s.db.findWalletById address.walletId).any (·.active) = true

/-- Pages are read whole and from their own cursor, every answer is there, and wallets are active. -/
def Sound (config : Config) (s : State tokenAccount) : Label tokenAccount → Prop
  | .work (.fetch poll) _ => Complete config s poll ∧ OwnCursor s poll
  | .work (.parse poll (signature :: _) _ _) (.answer answer) => Readable s poll signature answer
  | .work (.credit _ (.wallet _ _ address) (some _)) _ => ActiveWallet s address
  | _ => True

/-- A scan is covered up to its own cursor. -/
theorem Covered.cursorOf (h : Covered s) {scanAddress : Address} {a : AddressRow}
    (ha : a ∈ s.db.addresses) (hchain : a.chain = solanaChainId cluster) :
    (∀ signature ∈ s.db.cursorOf a.id scanAddress,
      ((s.chains cluster).position signature).isSome = true) ∧
    CoveredTo s cluster a.address scanAddress
      ((s.chains cluster).upTo (s.db.cursorOf a.id scanAddress)) := by
  unfold Db.cursorOf
  cases hfind : s.db.cursors.find? fun c => c.addressId = a.id ∧ c.scanAddress = scanAddress with
  | none => exact ⟨by simp, coveredTo_zero⟩
  | some cursor =>
    have hmem := mem_of_find?_eq_some hfind
    have hkey := find?_some hfind
    simp only [decide_eq_true_eq] at hkey
    have hcovered := h.noneSkipped cursor hmem a ha hkey.1.symm cluster hchain
    rw [hkey.2] at hcovered
    exact ⟨h.known cursor hmem a ha hkey.1.symm cluster hchain, hcovered⟩

/-- What a page starts from is covered. -/
theorem Covered.start (h : Covered s) (htask : TaskOk s (.fetch poll)) (hown : OwnCursor s poll) :
    CoveredTo s poll.cluster poll.owner poll.scanAddress ((s.chains poll.cluster).upTo poll.cursor) := by
  obtain ⟨⟨⟨a, ha, hid, hchain, haddress⟩, -⟩, hcovered⟩ := htask
  obtain hscan | hle := hown
  · exact hcovered hscan
  · rw [← hid] at hle
    rw [← haddress]
    exact (h.cursorOf ha hchain).2.le hle

theorem Covered.spawn (h : Covered s) {left : List Task} (hleft : ∀ task ∈ left, TaskOk s task) :
    Covered (s.spawn left) := by
  have hg : Grows s (s.spawn left) := .of_eq rfl (List.Subset.refl _) rfl
  refine h.frame hg h.chains h.ids rfl (.of_eq rfl) fun task htask => ?_
  obtain htask | htask := mem_append.1 htask
  · exact .inr ((hleft task htask).mono hg)
  · exact .inl htask

variable {choice : Choice}

theorem Covered.fetch (h : Covered s) (htask : TaskOk s (.fetch poll))
    (hok : Complete config s poll ∧ OwnCursor s poll)
    (hwork : s.work config (.fetch poll) choice = some t) : Covered t := by
  cases choice with
  | go =>
    cases hwork
    refine h.spawn fun task hmem => ?_
    obtain rfl := mem_singleton.1 hmem
    have hpending := page_pending (h.chains poll.cluster) hok.1 (h.start htask hok.2)
    refine ⟨htask.1, _, hpending, fun signature hsignature hne => ?_⟩
    -- the newest is on the page, or the cursor has not moved
    unfold State.newest at hsignature hne
    cases hlast : (s.page config poll).getLast? with
    | none => simp [hlast] at hne
    | some entry =>
      obtain rfl : entry.signature = signature := by simpa [hlast] using hsignature
      exact hpending.signatures _ (mem_map_of_mem (mem_of_getLast? hlast))
  | answer | rent | ids => cases hwork

variable {nextCursor : Option Signature}

theorem Covered.answer (h : Covered s) {rest : List Signature}
    {transfers : List TransferEvent} {answer : RpcAnswer}
    (htask : TaskOk s (.parse poll (signature :: rest) transfers nextCursor))
    (hok : Readable s poll signature answer)
    (hwork : s.work config (.parse poll (signature :: rest) transfers nextCursor) (.answer answer) =
      some t) : Covered t := by
  obtain ⟨hpoll, n, hpending, hnext⟩ := htask
  obtain rfl := hok.1
  obtain ⟨parsed, hparsed, rfl⟩ := Option.map_eq_some_iff.1 hwork
  simp only [getParsedTransaction, Option.ite_none_right_eq_some, Option.map_eq_some_iff] at hparsed
  obtain ⟨-, x, hx, rfl⟩ := hparsed
  refine h.spawn fun task hmem => ?_
  obtain rfl := mem_singleton.1 hmem
  exact ⟨hpoll, n, hpending.answer (h.chains poll.cluster) hx hok, hnext⟩

theorem Covered.nothing (h : Covered s) (htask : TaskOk s (.parse poll [] [] nextCursor))
    (hwork : s.work config (.parse poll [] [] nextCursor) choice = some t) : Covered t := by
  obtain ⟨hpoll, n, hpending, hnext⟩ := htask
  have htouched := h.touch hpoll
  cases choice with
  | go =>
    cases nextCursor with
    | none =>
      cases hwork
      exact htouched
    | some signature =>
      simp only [State.work] at hwork
      split at hwork
      · rename_i hne
        cases hwork
        refine htouched.spawn fun task hmem => ?_
        obtain rfl := mem_singleton.1 hmem
        have hadvance : TaskOk s (.advance poll signature none) :=
          ⟨hpoll, n, hpending.bound, hpending.done, hnext signature rfl hne⟩
        obtain ⟨haddresses, -, hdeposits, -⟩ := touch_same s.db poll.addressId poll.scanAddress
        exact hadvance.mono (.of_eq rfl (fun d hd => hdeposits ▸ hd) haddresses)
      · cases hwork
        exact htouched
  | answer | rent | ids => cases hwork

theorem Covered.found (h : Covered s) {event : TransferEvent}
    (htask : TaskOk s (.parse poll [] (event :: rest) nextCursor))
    (hwork : s.work config (.parse poll [] (event :: rest) nextCursor) choice = some t) :
    Covered t := by
  obtain ⟨hpoll, n, hpending, -⟩ := htask
  have hleft : ∀ rent, Covered (s.spawn (loop poll (event :: rest) rent none)) := fun rent =>
    h.spawn fun task hmem => loop_taskOk hpoll hpending (by simp) hmem
  cases choice with
  | rent lamports =>
    simp only [State.work] at hwork
    split at hwork
    · split at hwork
      · cases hwork
        exact hleft _
      · cases hwork
    · cases hwork
      exact hleft _
  | go | answer | ids => cases hwork

theorem Covered.count (h : Covered s) {event : TransferEvent} {rent : Nat}
    {highest : Option (Signature × Nat)} (htask : TaskOk s (.count poll event rest rent highest))
    (hwork : s.work config (.count poll event rest rent highest) choice = some t) : Covered t := by
  obtain ⟨hpoll, n, hpending⟩ := htask
  have hfinal : event.confirmation = .final := (hpending.events event mem_cons_self).2
  cases choice with
  | go =>
    cases hwork
    refine h.spawn fun task hmem => ?_
    simp only [creditTransfer, hfinal, ne_eq, not_true_eq_false, if_false, proceed] at hmem
    obtain rfl := mem_singleton.1 hmem
    exact ⟨hpoll, rfl, n, hpending⟩
  | answer | rent | ids => cases hwork

/-- A call that is back has dealt with its event. -/
theorem creditStep_deals {call : Credit} {next : Next} {db' : Db}
    {depositId transactionId : String} {outcome : CreditOutcome} (hpoll : PollOk s next.poll)
    (hevent : call.event = next.event) (hok : Sound config s (.work (.credit cluster call (some next)) .go))
    (hback : s.db.creditStep (config.allowed cluster) depositId transactionId call =
      some (db', .back outcome)) :
    outcome ≠ .notFinal ∧ (next.event.chain = solanaChainId next.poll.cluster →
      next.event.recipient = next.poll.owner → ∃ d ∈ db'.deposits,
        d.key = (solanaChainId next.poll.cluster, next.event.txReference,
          next.event.instructionIndex)) := by
  obtain ⟨hfinal, ⟨event, rent, rfl, hfind⟩ | ⟨event, rent, address, rfl, hwallet⟩ | hrecorded⟩ :=
    Db.creditStep_back hback
  · -- the owner's address is ours
    refine ⟨hfinal, fun hchain hrecipient => ?_⟩
    obtain rfl : event = next.event := hevent
    obtain ⟨a, ha, -, hachain, haddress⟩ := hpoll.address
    refine absurd ?_ (find?_eq_none.1 hfind a ha)
    simp [hachain, hchain, haddress, hrecipient]
  · have hactive : ActiveWallet s address := hok
    rw [ActiveWallet, hwallet] at hactive
    cases hactive
  · refine ⟨hfinal, fun hchain _ => ?_⟩
    rw [hevent, hchain] at hrecorded
    exact hrecorded

theorem Covered.credit (h : Covered s) {call : Credit} {next : Option Next}
    (htask : TaskOk s (.credit cluster call next))
    (hok : Sound config s (.work (.credit cluster call next) choice))
    (hwork : s.work config (.credit cluster call next) choice = some t) : Covered t := by
  cases choice with
  | ids depositId transactionId =>
    obtain ⟨⟨db', out⟩, hcredit, rfl⟩ := Option.map_eq_some_iff.1 hwork
    have hwrites := Db.creditStep_writes hcredit
    have hcursors : db'.cursors = s.db.cursors := by cases hwrites <;> rfl
    have haddresses := (Writes.custody hwrites).1
    have hdeposits : s.db.deposits ⊆ db'.deposits := by
      cases hwrites with
      | nothing => exact List.Subset.refl _
      | ignored => exact subset_append_left _ _
      | credited => exact subset_append_left _ _
    have hg : Grows s { s with db := db' } := .of_eq rfl hdeposits haddresses
    have hbooked : Covered { s with db := db' } :=
      h.frame hg h.chains (by simpa only [haddresses] using h.ids) hcursors (.of_eq haddresses)
        fun _ => .inl
    refine hbooked.spawn fun task hmem => ?_
    cases next with
    | none =>
      cases out with
      | on c =>
        obtain rfl := mem_singleton.1 hmem
        trivial
      | back outcome => simp [proceed] at hmem
    | some next =>
      obtain ⟨hpoll, hevent, n, hpending⟩ := htask
      cases out with
      | on c =>
        obtain rfl := mem_singleton.1 hmem
        have hcall : c.event = next.event := (Db.creditStep_event hcredit).trans hevent
        exact ⟨hpoll.mono hg, hcall, n, hpending.mono hg⟩
      | back outcome =>
        have hok' : Sound config s (.work (.credit cluster call (some next)) .go) := by
          cases call <;> exact hok
        obtain ⟨hfinal, hrecorded⟩ := creditStep_deals hpoll hevent hok' hcredit
        have hwithin := (hpending.events next.event mem_cons_self).1
        have hdone := (hpending.mono hg).recorded hrecorded
        have hloop : task ∈ loop next.poll next.rest next.rent
            (some (next.event.txReference, next.event.position)) := by
          cases outcome with
          | notFinal => exact absurd rfl hfinal
          | credited | duplicate | ignored => exact hmem
        refine loop_taskOk (hpoll.mono hg) hdone ?_ hloop
        rintro _ ⟨⟩
        exact hwithin.mono hg
  | go | answer | rent => cases hwork

theorem Covered.work (h : Covered s) (htask : TaskOk s task)
    (hok : Sound config s (.work task choice)) (hwork : s.work config task choice = some t) :
    Covered t := by
  cases task with
  | fetch poll => exact h.fetch htask hok hwork
  | parse poll rest transfers nextCursor =>
    cases rest with
    | cons signature rest =>
      cases choice with
      | answer a => exact h.answer htask hok hwork
      | go | rent | ids => cases hwork
    | nil =>
      cases transfers with
      | nil => exact h.nothing htask hwork
      | cons event rest => exact h.found htask hwork
  | count poll event rest rent highest => exact h.count htask hwork
  | credit cluster call next => exact h.credit htask hok hwork
  | advance poll signature position =>
    cases choice with
    | go =>
      cases hwork
      exact h.advance htask
    | answer | rent | ids => cases hwork

/-- A step of a chain. -/
theorem Covered.setChain (h : Covered s)
    {more : List (Landed tokenAccount)} (hchain : ChainOk chain)
    (hmore : chain.landed = (s.chains cluster).landed ++ more) :
    Covered (s.setChain cluster chain) := by
  have hgrows : Grows s (s.setChain cluster chain) := by
    refine ⟨fun other => ?_, List.Subset.refl _, .of_eq rfl⟩
    by_cases hother : other = cluster
    · subst hother
      exact ⟨more, by simpa [State.setChain] using hmore⟩
    · exact ⟨[], by simp [State.setChain, Function.update_of_ne hother]⟩
  refine h.frame hgrows (fun other => ?_) h.ids rfl (.of_eq rfl) fun _ => .inl
  by_cases hother : other = cluster
  · subst hother
    simpa [State.setChain] using hchain
  · simpa [State.setChain, Function.update_of_ne hother] using h.chains other

theorem ChainOk.land (h : ChainOk chain) (hnew : chain.position entry.signature = none) :
    ChainOk { chain with landed := chain.landed ++ [entry] } where
  distinct := by
    rw [Chain.position, findIdx?_eq_none_iff] at hnew
    refine nodup_map_append h.distinct fun other hother hsame => ?_
    simpa [hsame] using hnew other hother
  ordered := h.ordered
  bounded := by
    have hbounded := h.bounded
    simp only [length_append]
    omega

/-- A scan of the owner starts at its cursor. -/
theorem Covered.watch (h : Covered s) {scanAddress : Address} {a : AddressRow}
    (ha : a ∈ s.db.addresses) (hchain : a.chain = solanaChainId cluster) :
    TaskOk s (.fetch ⟨cluster, a.id, a.address, s.db.cursorOf a.id a.address, scanAddress⟩) := by
  obtain ⟨hknown, hcovered⟩ := h.cursorOf ha hchain
  refine ⟨⟨⟨a, ha, rfl, hchain, rfl⟩, hknown⟩, fun hscan => ?_⟩
  simp only at hscan
  subst hscan
  exact hcovered

theorem Covered.newAddress (h : Covered s) {address : AddressRow}
    (hnew : ∀ a ∈ s.db.addresses, a.id ≠ address.id) :
    Covered { s with db := { s.db with addresses := s.db.addresses ++ [address] } } := by
  have hgrows : Grows s { s with db := { s.db with addresses := s.db.addresses ++ [address] } } :=
    ⟨fun cluster => ⟨[], by simp⟩, List.Subset.refl _,
      fun a ha => ⟨a, mem_append_left _ ha, rfl, rfl, rfl⟩⟩
  refine h.frame hgrows h.chains (nodup_map_append h.ids hnew) rfl ?_ fun _ => .inl
  intro a ha
  obtain ha | ha := mem_append.1 ha
  · exact .inl ⟨a, ha, rfl, rfl, rfl⟩
  · -- every cursor is of an address that was there before
    obtain rfl := mem_singleton.1 ha
    refine .inr fun cursor hcursor hsame => ?_
    obtain ⟨b, hb, hid⟩ := h.owned cursor hcursor
    exact hnew b hb (hid.trans hsame.symm)

theorem Covered.setWatched (h : Covered s) (addressId : String) (watched : Bool) :
    Covered { s with db := { s.db with addresses := s.db.addresses.map fun address =>
      if address.id = addressId then { address with watched := watched } else address } } := by
  refine h.frame ⟨fun cluster => ⟨[], by simp⟩, List.Subset.refl _, ?_⟩ h.chains ?_ rfl ?_ fun _ => .inl
  · intro a ha
    refine ⟨_, mem_map_of_mem ha, ?_⟩
    split <;> exact ⟨rfl, rfl, rfl⟩
  · have hsame : ∀ a : AddressRow,
        (if a.id = addressId then { a with watched := watched } else a).id = a.id := by
      intro a
      split <;> rfl
    simpa only [map_map, Function.comp_def, hsame] using h.ids
  · intro a ha
    obtain ⟨b, hb, rfl⟩ := mem_map.1 ha
    refine .inl ⟨b, hb, ?_⟩
    split <;> exact ⟨rfl, rfl, rfl⟩

theorem Covered.step {label : Label tokenAccount} (h : Covered s) (hok : Sound config s label)
    (hstep : s.step config label = some t) : Covered t := by
  cases label with
  | land cluster entry =>
    simp only [State.step, Option.ite_none_left_eq_some, Option.some.injEq, Bool.not_eq_true,
      Option.isSome_eq_false_iff, Option.isNone_iff_eq_none] at hstep
    obtain ⟨hnew, rfl⟩ := hstep
    exact h.setChain ((h.chains cluster).land hnew) rfl
  | confirm cluster =>
    obtain ⟨hlt, ⟨⟩⟩ := Option.ite_none_right_eq_some.1 hstep
    have hchain := h.chains cluster
    exact h.setChain ⟨hchain.distinct, Nat.le_succ_of_le hchain.ordered, hlt⟩ (append_nil _).symm
  | finalize cluster =>
    obtain ⟨hlt, ⟨⟩⟩ := Option.ite_none_right_eq_some.1 hstep
    have hchain := h.chains cluster
    exact h.setChain ⟨hchain.distinct, hlt, hchain.bounded⟩ (append_nil _).symm
  | newWallet wallet =>
    obtain ⟨-, ⟨⟩⟩ := Option.ite_none_left_eq_some.1 hstep
    exact h.frame (.of_eq rfl (List.Subset.refl _) rfl) h.chains h.ids rfl (.of_eq rfl) fun _ => .inl
  | newAddress address =>
    simp only [State.step, Option.ite_none_left_eq_some, Option.some.injEq, not_or, any_eq_true,
      decide_eq_true_eq, not_exists, not_and] at hstep
    obtain ⟨⟨hnew, -⟩, rfl⟩ := hstep
    exact h.newAddress hnew
  | setActive walletId active =>
    cases hstep
    exact h.frame (.of_eq rfl (List.Subset.refl _) rfl) h.chains h.ids rfl (.of_eq rfl) fun _ => .inl
  | setWatched addressId watched =>
    cases hstep
    exact h.setWatched addressId watched
  | post id transaction =>
    obtain ⟨-, ⟨⟩⟩ := Option.ite_none_left_eq_some.1 hstep
    exact h.frame (.of_eq rfl (List.Subset.refl _) rfl) h.chains h.ids rfl (.of_eq rfl) fun _ => .inl
  | watch cluster addressId scanAddress =>
    simp only [State.step] at hstep
    split at hstep
    · cases hstep
    · rename_i row hfind
      simp only [Option.ite_none_right_eq_some, Option.some.injEq] at hstep
      obtain ⟨⟨hchain, -⟩, rfl⟩ := hstep
      refine h.spawn fun task hmem => ?_
      obtain rfl := mem_singleton.1 hmem
      obtain rfl : row.id = addressId := by simpa using find?_some hfind
      exact h.watch (mem_of_find?_eq_some hfind) hchain
  | report poll signature event rent =>
    simp only [State.step] at hstep
    split at hstep
    · cases hstep
    · simp only [Option.ite_none_right_eq_some, Option.some.injEq] at hstep
      obtain ⟨-, rfl⟩ := hstep
      refine h.spawn fun task hmem => ?_
      unfold creditTransfer at hmem
      split at hmem
      · cases hmem
      · obtain rfl := mem_singleton.1 hmem
        trivial
  | work task choice =>
    simp only [State.step, Option.ite_none_right_eq_some] at hstep
    obtain ⟨hmem, hwork⟩ := hstep
    have hg : Grows s { s with tasks := s.tasks.erase task } := .of_eq rfl (List.Subset.refl _) rfl
    have hrest : Covered { s with tasks := s.tasks.erase task } :=
      h.frame hg h.chains h.ids rfl (.of_eq rfl) fun other hother => .inl (mem_of_mem_erase hother)
    exact hrest.work ((h.tasks task hmem).mono hg) hok hwork
  | crash =>
    cases hstep
    exact h.frame (.of_eq rfl (List.Subset.refl _) rfl) h.chains h.ids rfl (.of_eq rfl)
      fun task htask => (by cases htask)

theorem Covered.initial : Covered (State.initial : State tokenAccount) where
  chains cluster := ⟨nodup_nil, Nat.le_refl _, Nat.le_refl _⟩
  ids := nodup_nil
  owned cursor hcursor := by cases hcursor
  known cursor hcursor := by cases hcursor
  noneSkipped cursor hcursor := by cases hcursor
  tasks task htask := by cases htask

instance (config : Config) (s : State tokenAccount) : DecidablePred (Sound config s)
  | .work (.fetch _) _ => inferInstanceAs (Decidable (_ ≤ _ ∧ (_ = _ ∨ _ ≤ _)))
  | .work (.parse poll (signature :: _) _ _) (.answer answer) =>
    inferInstanceAs (Decidable (answer = .parsed true ∧ ∀ x ∈ (s.chains poll.cluster).find signature,
      (∀ index < x.accountKeys.length, x.accountKeys[index]? = some poll.owner → x.Exact index) ∧
      (poll.scanAddress = poll.owner ∨
        ∀ e ∈ parseTransfers (x.parsed true) [poll.owner] signature poll.cluster,
          ∃ d ∈ s.db.deposits, d.key = (e.chain, e.txReference, e.instructionIndex))))
  | .work (.credit _ (.wallet _ _ address) (some _)) _ =>
    inferInstanceAs (Decidable ((s.db.findWalletById address.walletId).any (·.active) = true))
  | .work (.parse _ [] _ _) _ | .work (.parse _ (_ :: _) _ _) .go
  | .work (.parse _ (_ :: _) _ _) (.rent _) | .work (.parse _ (_ :: _) _ _) (.ids _ _)
  | .work (.count ..) _ | .work (.credit _ (.address ..) _) _
  | .work (.credit _ (.transaction ..) _) _ | .work (.credit _ (.wallet ..) none) _
  | .work (.advance ..) _ | .land .. | .confirm _ | .finalize _ | .newWallet _ | .newAddress _
  | .setActive .. | .setWatched .. | .post .. | .watch .. | .report .. | .crash => .isTrue trivial

/-- In a run of sound steps no cursor passes a deposit. -/
theorem no_deposit_skipped {labels : List (Label tokenAccount)}
    (hrun : exec (State.step config) State.initial labels = some s)
    (hsound : Along (State.step config) (Sound config) State.initial labels) : NoneSkipped s :=
  (exec_inv Covered.initial (fun _ _ _ h hok hstep => h.step hok hstep) hsound hrun).noneSkipped

/-! ## A burst -/

/-- One event of a page, from `creditTransfer` to its row. -/
def creditedBy (next : Next) (depositId transactionId : String) : List (Label isTokenAccount) :=
  [.work (.count next.poll next.event next.rest next.rent next.highest) .go,
    .work (.credit .devnet (.address next.event next.rent) (some next)) (.ids "" ""),
    .work (.credit .devnet (.wallet next.event next.rent bobsAddress) (some next)) (.ids "" ""),
    .work (.credit .devnet (.transaction next.event next.rent bobsAddress bobsWallet) (some next))
      (.ids depositId transactionId)]

/-- Three payments before the first poll, on pages of two. -/
def burst : List (Label isTokenAccount) :=
  let poll : Poll := ⟨.devnet, "a", "bob", none, "bob"⟩
  let event (signature : Signature) : TransferEvent :=
    (⟨1, nativeAssetKey .devnet, "bob", 1⟩ : Transfer).event .devnet signature 7 none
  opened ++ settled "sig1" (payment 0 1) ++ settled "sig2" (payment 1 2) ++
    settled "sig3" (payment 2 3) ++
    [.watch .devnet "a" "bob", .work (.fetch poll) .go,
      .work (.parse poll ["sig2", "sig3"] [] (some "sig3")) (.answer (.parsed true)),
      .work (.parse poll ["sig3"] [event "sig2"] (some "sig3")) (.answer (.parsed true)),
      .work (.parse poll [] [event "sig2", event "sig3"] (some "sig3")) (.rent 0)] ++
    creditedBy ⟨poll, event "sig2", [event "sig3"], 0, none⟩ "d2" "t2" ++
    creditedBy ⟨poll, event "sig3", [], 0, some ("sig2", 7)⟩ "d3" "t3" ++
    [.work (.advance poll "sig3" (some 7)) .go]

/-- The oldest payment is behind the cursor, and has no row. -/
theorem burst_skipped :
    ∃ s, exec (State.step sampleConfig) State.initial burst = some s ∧
      (s.chains .devnet).find "sig1" = some (payment 0 1) ∧
      (s.chains .devnet).status "sig1" = .finalized ∧
      Carries .devnet (payment 0 1) ⟨1, nativeAssetKey .devnet, "bob", 1⟩ ∧
      s.db.cursorOf "a" "bob" = some "sig3" ∧ ¬ Recorded s .devnet "sig1" 1 ∧ ¬ NoneSkipped s := by
  obtain ⟨s, hs, hfind, hstatus, hcursor, hrow, haddress, htake, hnone⟩ :
      ∃ s, exec (State.step sampleConfig) State.initial burst = some s ∧
        (s.chains .devnet).find "sig1" = some (payment 0 1) ∧
        (s.chains .devnet).status "sig1" = .finalized ∧ s.db.cursorOf "a" "bob" = some "sig3" ∧
        CursorRow.mk "a" "bob" (some "sig3") (some 7) ∈ s.db.cursors ∧ bobsAddress ∈ s.db.addresses ∧
        Landed.mk "sig1" (payment 0 1) ∈ (s.chains .devnet).landed.take
          ((s.chains .devnet).upTo (some "sig3")) ∧
        ∀ d ∈ s.db.deposits, d.key ≠ (solanaChainId .devnet, "sig1", 1) :=
    Lib.exec_reaches (by decide +kernel)
  have hcarries : Carries .devnet (payment 0 1) ⟨1, nativeAssetKey .devnet, "bob", 1⟩ :=
    .inl ⟨rfl, rfl, rfl, 0, 1, rfl, rfl, by decide, rfl⟩
  have hmissing : ¬ Recorded s .devnet "sig1" 1 := fun ⟨d, hd, hkey⟩ => hnone d hd hkey
  refine ⟨s, hs, hfind, hstatus, hcarries, hcursor, hmissing, fun hall => hmissing ?_⟩
  exact hall _ hrow bobsAddress haddress rfl .devnet rfl ⟨"sig1", payment 0 1⟩ htake (by decide) _
    hcarries rfl

/-- Two polls, a payment before each. -/
theorem no_deposit_skipped_polled :
    ∃ s, exec (State.step sampleConfig) State.initial
        (opened ++ settled "sig1" (payment 0 11) ++ polled none "sig1" 11 0 "d1" "t1" ++
          settled "sig2" (payment 11 12) ++ polled (some "sig1") "sig2" 1 0 "d2" "t2") = some s ∧
      s.db.cursorOf "a" "bob" = some "sig2" ∧ NoneSkipped s := by
  obtain ⟨s, hs, hcursor⟩ : ∃ s, exec (State.step sampleConfig) State.initial
      (opened ++ settled "sig1" (payment 0 11) ++ polled none "sig1" 11 0 "d1" "t1" ++
        settled "sig2" (payment 11 12) ++ polled (some "sig1") "sig2" 1 0 "d2" "t2") = some s ∧
      s.db.cursorOf "a" "bob" = some "sig2" := Lib.exec_reaches (by decide +kernel)
  exact ⟨s, hs, hcursor, no_deposit_skipped hs (by decide +kernel)⟩

end AtlasCex.Deposits
