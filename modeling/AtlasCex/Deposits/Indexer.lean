import AtlasCex.Deposits.Credit
import AtlasCex.Lib.Transition
/-!
# The indexer

| here | there |
| --- | --- |
| `Chain`     | the transactions of a cluster in the order of its ledger; the first `finalized` of them are final |
| `signaturesFor` | `getSignaturesForAddress`: newest first, at most `limit`, nothing up to `until` |
| `Task.fetch`, `.parse` | `fetchTransfers` (`solana/src/adapter.ts:88-188`): the list, then one answer for each signature |
| `Task.count`, `.credit`, `.advance` | the loop of `pollAddress` (`workers/indexer.ts:81-203`) and its last statement |
| `Label.watch` | a row of `listWatched` (`custody.repository.ts:141-167`) and one account to scan for it |
| `Label.report` | an event of a settled transaction handed to `creditTransfer` once more, by whom ever |

`Poll.cursor` is the cursor `listWatched` read: the one of the deposit address, whichever account is
scanned. Every call interleaves with every other between two statements, and one that is not scheduled
again has crashed. Cursors, deposits and postings are rows; the chain only grows.
-/
namespace AtlasCex.Deposits

open Ledger (AssetKey LedgerTransaction)

/-! ## The chain as the RPC shows it -/

inductive Commitment where
  | processed
  | confirmed
  | finalized
deriving DecidableEq, Repr

def Commitment.rank : Commitment → Nat
  | processed => 0
  | confirmed => 1
  | finalized => 2

def meetsCommitment (status required : Commitment) : Bool := required.rank ≤ status.rank

/-- `getSignaturesForAddress` knows no processed signatures. -/
def toFinality : Commitment → Commitment
  | .finalized => .finalized
  | .confirmed | .processed => .confirmed

variable {tokenAccount : Address → Bool}

structure Landed (tokenAccount : Address → Bool) where
  signature : Signature
  executed : Executed tokenAccount
deriving DecidableEq

structure Chain (tokenAccount : Address → Bool) where
  landed : List (Landed tokenAccount)
  confirmed : Nat
  finalized : Nat

namespace Chain

variable (chain : Chain tokenAccount)

def position (signature : Signature) : Option Nat :=
  chain.landed.findIdx? (·.signature = signature)

def visible (finality : Commitment) : Nat :=
  if finality = .finalized then chain.finalized else chain.confirmed

def status (signature : Signature) : Commitment :=
  if (chain.position signature).any (· < chain.finalized) then .finalized
  else if (chain.position signature).any (· < chain.confirmed) then .confirmed
  else .processed

/-- How many transactions are at or before a signature. -/
def upTo (until_ : Option Signature) : Nat :=
  ((until_.bind chain.position).map (· + 1)).getD 0

/-- What mentions an account after a signature, oldest first. -/
def after (account : Address) (until_ : Option Signature) (finality : Commitment) :
    List (Landed tokenAccount) :=
  ((chain.landed.take (chain.visible finality)).drop (chain.upTo until_)).filter
    (account ∈ ·.executed.accountKeys)

def signaturesFor (account : Address) (until_ : Option Signature) (limit : Nat)
    (finality : Commitment) : List (Landed tokenAccount) :=
  (chain.after account until_ finality).reverse.take limit

def find (signature : Signature) : Option (Executed tokenAccount) :=
  (chain.landed.find? (·.signature = signature)).map (·.executed)

end Chain

/-- A transaction that is not there yet, or one with or without its metadata. -/
inductive RpcAnswer where
  | unavailable
  | parsed (metadata : Bool)
deriving DecidableEq, Repr

/-- `getParsedTransaction` at commitment `finalized`. -/
def getParsedTransaction (chain : Chain tokenAccount) (signature : Signature) :
    RpcAnswer → Option (Option ParsedTransaction)
  | .unavailable => some none
  | .parsed metadata =>
    if chain.status signature = .finalized then
      (chain.find signature).map fun x => some (x.parsed metadata)
    else none

/-! ## Tasks -/

structure Config where
  allowed : Cluster → AssetKey → Bool
  tokenAccounts : Cluster → Address → List Address
  commitment : Commitment
  pageSize : Nat

structure Poll where
  cluster : Cluster
  addressId : String
  owner : Address
  cursor : Option Signature
  scanAddress : Address
deriving DecidableEq, Repr

/-- What `pollAddress` does after the transfer it is crediting. -/
structure Next where
  poll : Poll
  event : TransferEvent
  rest : List TransferEvent
  rent : Nat
  highest : Option (Signature × Nat)
deriving DecidableEq, Repr

inductive Task where
  | fetch (poll : Poll)
  | parse (poll : Poll) (rest : List Signature) (transfers : List TransferEvent)
      (nextCursor : Option Signature)
  | count (poll : Poll) (event : TransferEvent) (rest : List TransferEvent) (rent : Nat)
      (highest : Option (Signature × Nat))
  | credit (cluster : Cluster) (credit : Credit) (next : Option Next)
  | advance (poll : Poll) (signature : Signature) (position : Option Nat)
deriving DecidableEq, Repr

/-- The loop goes on, or the cursor follows. -/
def loop (poll : Poll) (rest : List TransferEvent) (rent : Nat) (highest : Option (Signature × Nat)) :
    List Task :=
  match rest with
  | event :: rest => [.count poll event rest rent highest]
  | [] => (highest.map fun h => .advance poll h.1 (some h.2)).toList

/-- What is left to do with an outcome. -/
def Next.resume (next : Next) : CreditOutcome → List Task
  -- not settled yet: the cursor must not pass it
  | .notFinal => loop next.poll [] next.rent next.highest
  | .credited _ | .duplicate | .ignored _ =>
    loop next.poll next.rest next.rent (some (next.event.txReference, next.event.position))

def proceed (cluster : Cluster) (next : Option Next) : CreditNext → List Task
  | .on credit => [.credit cluster credit next]
  | .back outcome => (next.map (·.resume outcome)).getD []

/-! ## The system -/

structure State (tokenAccount : Address → Bool) where
  chains : Cluster → Chain tokenAccount
  db : Db
  tasks : List Task

/-- What a task is told: an answer of the RPC, or the ids a statement draws. -/
inductive Choice where
  | go
  | answer (answer : RpcAnswer)
  | rent (lamports : Nat)
  | ids (depositId transactionId : String)
deriving DecidableEq, Repr

namespace Db

def cursorOf (db : Db) (addressId : String) (scanAddress : Address) : Option Signature :=
  (db.cursors.find? fun c => c.addressId = addressId ∧ c.scanAddress = scanAddress).bind
    (·.lastSignature)

def hasCursor (db : Db) (addressId : String) (scanAddress : Address) : Bool :=
  db.cursors.any fun c => c.addressId = addressId ∧ c.scanAddress = scanAddress

/-- Upsert. -/
def advance (db : Db) (addressId : String) (scanAddress : Address) (signature : Signature)
    (position : Option Nat) : Db :=
  if db.hasCursor addressId scanAddress then
    { db with cursors := db.cursors.map fun c =>
        if c.addressId = addressId ∧ c.scanAddress = scanAddress then
          ⟨addressId, scanAddress, some signature, position⟩ else c }
  else { db with cursors := db.cursors ++ [⟨addressId, scanAddress, some signature, position⟩] }

/-- The poll happened. -/
def touch (db : Db) (addressId : String) (scanAddress : Address) : Db :=
  if db.hasCursor addressId scanAddress then db
  else { db with cursors := db.cursors ++ [⟨addressId, scanAddress, none, none⟩] }

end Db

/-- The events of one answer: native ones of the scanned account, token ones of the owner. -/
def eventsOf (poll : Poll) (signature : Signature) : Option ParsedTransaction → List TransferEvent
  | none => []
  | some parsed =>
    parseTransfers parsed [poll.scanAddress] signature poll.cluster ++
      parseTokenTransfers parsed [poll.owner] signature poll.cluster

namespace State

variable (config : Config) (s : State tokenAccount)

def spawn (tasks : List Task) : State tokenAccount := { s with tasks := tasks ++ s.tasks }

/-- The page: eligible signatures, oldest first. -/
def page (poll : Poll) : List (Landed tokenAccount) :=
  let chain := s.chains poll.cluster
  ((chain.signaturesFor poll.scanAddress poll.cursor (min config.pageSize 1000)
      (toFinality config.commitment)).filter fun entry =>
    entry.executed.failed = false ∧
      meetsCommitment (chain.status entry.signature) config.commitment).reverse

def newest (poll : Poll) : Option Signature :=
  (((s.page config poll).getLast?).map (·.signature)).or poll.cursor

def work : Task → Choice → Option (State tokenAccount)
  | .fetch poll, .go =>
    some (s.spawn [.parse poll ((s.page config poll).map (·.signature)) [] (s.newest config poll)])
  | .parse poll (signature :: rest) transfers nextCursor, .answer answer =>
    (getParsedTransaction (s.chains poll.cluster) signature answer).map fun parsed =>
      s.spawn [.parse poll rest (transfers ++ eventsOf poll signature parsed) nextCursor]
  | .parse poll [] [] nextCursor, .go =>
    let touched := { s with db := s.db.touch poll.addressId poll.scanAddress }
    match nextCursor with
    | none => some touched
    | some signature =>
      if nextCursor ≠ poll.cursor then some (touched.spawn [.advance poll signature none])
      else some touched
  | .parse poll [] (event :: rest) _, .rent lamports =>
    if poll.scanAddress = poll.owner then
      -- the rent minimum of another asset is refused
      if event.asset = nativeAssetKey poll.cluster then
        some (s.spawn (loop poll (event :: rest) lamports none))
      else none
    else some (s.spawn (loop poll (event :: rest) 0 none))
  | .count poll event rest rent highest, .go =>
    -- rent is reserved by the transfer that first funds an address
    let existing := s.db.deposits.countP (·.addressId = poll.addressId)
    let applicable := if existing = 0 then rent else 0
    some (s.spawn (proceed poll.cluster (some ⟨poll, event, rest, rent, highest⟩)
      (creditTransfer event applicable)))
  | .credit cluster credit next, .ids depositId transactionId =>
    (s.db.creditStep (config.allowed cluster) depositId transactionId credit).map fun out =>
      { s with db := out.1 }.spawn (proceed cluster next out.2)
  | .advance poll signature position, .go =>
    some { s with db := s.db.advance poll.addressId poll.scanAddress signature position }
  | _, _ => none

end State

inductive Label (tokenAccount : Address → Bool) where
  | land (cluster : Cluster) (entry : Landed tokenAccount)
  | confirm (cluster : Cluster)
  | finalize (cluster : Cluster)
  | newWallet (wallet : WalletRow)
  | newAddress (address : AddressRow)
  | setActive (walletId : String) (active : Bool)
  | setWatched (addressId : String) (watched : Bool)
  | post (id : String) (transaction : LedgerTransaction)
  | watch (cluster : Cluster) (addressId : String) (scanAddress : Address)
  | report (poll : Poll) (signature : Signature) (event : TransferEvent) (rent : Nat)
  | work (task : Task) (choice : Choice)
  | crash

namespace State

def setChain (s : State tokenAccount) (cluster : Cluster) (chain : Chain tokenAccount) :
    State tokenAccount :=
  { s with chains := Function.update s.chains cluster chain }

def step (config : Config) (s : State tokenAccount) : Label tokenAccount → Option (State tokenAccount)
  | .land cluster entry =>
    let chain := s.chains cluster
    if (chain.position entry.signature).isSome then none
    else some (s.setChain cluster { chain with landed := chain.landed ++ [entry] })
  | .confirm cluster =>
    let chain := s.chains cluster
    if chain.confirmed < chain.landed.length then
      some (s.setChain cluster { chain with confirmed := chain.confirmed + 1 })
    else none
  | .finalize cluster =>
    let chain := s.chains cluster
    if chain.finalized < chain.confirmed then
      some (s.setChain cluster { chain with finalized := chain.finalized + 1 })
    else none
  | .newWallet wallet =>
    if s.db.wallets.any (·.id = wallet.id) then none
    else some { s with db := { s.db with wallets := s.db.wallets ++ [wallet] } }
  | .newAddress address =>
    if s.db.addresses.any (·.id = address.id) ∨
        (s.db.findByAddress address.chain address.address).isSome ∨
        (s.db.findWalletById address.walletId).isNone ∨ tokenAccount address.address = true then none
    else some { s with db := { s.db with addresses := s.db.addresses ++ [address] } }
  | .setActive walletId active =>
    some { s with db := { s.db with wallets := s.db.wallets.map fun wallet =>
      if wallet.id = walletId then { wallet with active := active } else wallet } }
  | .setWatched addressId watched =>
    some { s with db := { s.db with addresses := s.db.addresses.map fun address =>
      if address.id = addressId then { address with watched := watched } else address } }
  | .post id transaction =>
    -- no other posting is of this kind
    if transaction.kind = .deposit ∨ s.db.ledger.any (·.1 = id) then none
    else some { s with db := { s.db with ledger := s.db.ledger ++ [(id, transaction)] } }
  | .watch cluster addressId scanAddress =>
    match s.db.addresses.find? (·.id = addressId) with
    | none => none
    | some row =>
      if row.chain = solanaChainId cluster ∧ row.watched = true ∧
          scanAddress ∈ row.address :: config.tokenAccounts cluster row.address then
        some (s.spawn [.fetch ⟨cluster, addressId, row.address,
          s.db.cursorOf addressId row.address, scanAddress⟩])
      else none
  | .report poll signature event rent =>
    match (s.chains poll.cluster).find signature with
    | none => none
    | some x =>
      if event ∈ eventsOf poll signature (some (x.parsed true)) then
        some (s.spawn (proceed poll.cluster none (creditTransfer event rent)))
      else none
  | .work task choice =>
    if task ∈ s.tasks then { s with tasks := s.tasks.erase task }.work config task choice else none
  | .crash => some { s with tasks := [] }

def initial : State tokenAccount := ⟨fun _ => ⟨[], 0, 0⟩, ⟨[], [], [], [], []⟩, []⟩

end State

end AtlasCex.Deposits
