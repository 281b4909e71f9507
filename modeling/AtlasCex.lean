import AtlasCex.Lib.Transition
import AtlasCex.Lib.Selection
import AtlasCex.Lib.Script
import AtlasCex.Lib.Runs
import AtlasCex.Lib.Checked
import AtlasCex.Lib.Fields
import AtlasCex.Lib.Buckets
import AtlasCex.Lib.Patch
import AtlasCex.Lib.Floors
import AtlasCex.Lib.Format
import AtlasCex.Matching.Types
import AtlasCex.Matching.Book
import AtlasCex.Matching.Engine
import AtlasCex.Matching.Reference
import AtlasCex.Matching.Refinement
import AtlasCex.Matching.Priority
import AtlasCex.Matching.Simulation
import AtlasCex.Matching.Invariants
import AtlasCex.Matching.Reuse
import AtlasCex.Matching.Levels
import AtlasCex.Matching.Conservation
import AtlasCex.Matching.Legality
import AtlasCex.Matching.Touched
import AtlasCex.Server.Runtime
import AtlasCex.Server.Levels
import AtlasCex.Server.Wal
import AtlasCex.Server.Bincode
import AtlasCex.Server.TornTail
import AtlasCex.Server.Appends
import AtlasCex.Server.Recovery
import AtlasCex.Server.Egress
import AtlasCex.Server.Submit
import AtlasCex.Server.Lookup
import AtlasCex.Server.Published
import AtlasCex.EngineStream.Journal
import AtlasCex.EngineStream.Consumer
import AtlasCex.EngineStream.Exactly
import AtlasCex.Withdrawals.States
import AtlasCex.Withdrawals.Workers
import AtlasCex.Withdrawals.Steps
import AtlasCex.Withdrawals.Spend
import AtlasCex.Withdrawals.Leases
import AtlasCex.Ledger.Postings
import AtlasCex.Trading.Orders
import AtlasCex.Trading.Settlement
import AtlasCex.Trading.Market
import AtlasCex.Trading.Validation
import AtlasCex.Trading.Reserve
import AtlasCex.Trading.Holds
import AtlasCex.Trading.Agreement
import AtlasCex.Mpc.Messages
import AtlasCex.Mpc.Authorization
import AtlasCex.Mpc.Signing
import AtlasCex.Mpc.Answers
import AtlasCex.Mpc.Callers
import AtlasCex.Mpc.Nonces
import AtlasCex.Mpc.Dkg
import AtlasCex.Mpc.DkgAgreement
import AtlasCex.Mpc.DkgCoordinator
import AtlasCex.Mpc.DkgStored
import AtlasCex.Mpc.DkgOrderly
import AtlasCex.Mpc.DkgRecovery
import AtlasCex.Mpc.DkgViews
import AtlasCex.Mpc.DkgTranscript
import AtlasCex.Ledger.Custody
import AtlasCex.Ledger.Projection
import AtlasCex.Ledger.Tiers
import AtlasCex.Deposits.Transfers
import AtlasCex.Deposits.Credit
import AtlasCex.Deposits.Indexer
import AtlasCex.Deposits.Once
import AtlasCex.Deposits.Cursors
import AtlasCex.Deposits.Pages
import AtlasCex.Deposits.Rent
import AtlasCex.Gateway.Requests
import AtlasCex.Gateway.NeverSeen
import AtlasCex.Withdrawals.Desk
import AtlasCex.Withdrawals.Locks
import AtlasCex.Withdrawals.Balances
import AtlasCex.Risk.Engine
import AtlasCex.Risk.Monotone
import AtlasCex.Withdrawals.Requests
import AtlasCex.Withdrawals.RollingCap
import AtlasCex.Withdrawals.Limits
import AtlasCex.Auth.Ceremonies
import AtlasCex.Auth.StepUp
import AtlasCex.Server.ReplayCache
import AtlasCex.Server.Ring
import AtlasCex.Server.Paging
import AtlasCex.Trading.Terms
import AtlasCex.Matching.FillOrKill
import AtlasCex.Withdrawals.Attended
import AtlasCex.Withdrawals.Stranded
import AtlasCex.Withdrawals.SignRetry
import AtlasCex.Sockets.Account
import AtlasCex.Mpc.TierMatching
import AtlasCex.Mpc.Base58
import AtlasCex.Trading.Decimal
import AtlasCex.Portfolio.Series
import AtlasCex.Auth.Counters
