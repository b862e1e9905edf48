import Tenderize.Support.Checked
import Tenderize.Support.FirstMatch
import Tenderize.Support.Words
import Tenderize.Support.FloorShare
import Tenderize.Model.Basic
import Tenderize.Model.State
import Tenderize.Model.Ledger
import Tenderize.Model.Programs
import Tenderize.Model.Rules
import Tenderize.Model.Processor.Common
import Tenderize.Model.Processor.Pool
import Tenderize.Model.Processor.Credits
import Tenderize.Model.Processor.Validators
import Tenderize.Model.Processor.Stakes
import Tenderize.Model.Processor
import Tenderize.Model.Activation
import Tenderize.Support.Bytes
import Tenderize.Model.Instruction
import Tenderize.Model.Derivation
import Tenderize.Model.Storage
import Tenderize.Model.Client
import Tenderize.Model.Readers
import Tenderize.Support.Slices
import Tenderize.Model.Planner
import Tenderize.Model.Session
import Tenderize.Model.Cli
import Tenderize.Support.Greedy
import Tenderize.Support.Rounding
import Tenderize.Support.Transition
import Tenderize.Model.WebClient
import Tenderize.Effects.Calls
import Tenderize.Spec.State
import Tenderize.Spec.Updates
import Tenderize.Spec.Calls
import Tenderize.Spec.Books
import Tenderize.Spec.Tokens
import Tenderize.Spec.Steps
import Tenderize.Spec.Held
import Tenderize.Spec.StakeAccounts
import Tenderize.Spec.Sweep
import Tenderize.Spec.Moves
import Tenderize.Spec.MoveRuns
import Tenderize.Refinement.Accounts
import Tenderize.Refinement.Pool
import Tenderize.Refinement.Storage
import Tenderize.Refinement.Deposit
import Tenderize.Refinement.Tokens
import Tenderize.Refinement.Credits
import Tenderize.Refinement.Validators
import Tenderize.Refinement.Stakes
import Tenderize.Refinement.Initialize
import Tenderize.Refinement.Runs
import Tenderize.Refinement.Complete
import Tenderize.Refinement.Sweep
import Tenderize.Refinement.Owners
import Tenderize.Refinement.Writes
import Tenderize.Refinement.StakeAccounts
import Tenderize.Reference.Programs
import Tenderize.Reference.Rules
import Tenderize.Reference.Pool
import Tenderize.Reference.Openings
import Tenderize.Properties.CreditQueue
import Tenderize.Properties.Accounting
import Tenderize.Properties.Payout
import Tenderize.Properties.Holdings
import Tenderize.Properties.Delegation
import Tenderize.Properties.Trading
import Tenderize.Properties.Deposits
import Tenderize.Properties.Solvency
import Tenderize.Properties.StakeBooks
import Tenderize.Properties.Approvals
import Tenderize.Properties.Records
import Tenderize.Properties.StakeRuns
import Tenderize.Properties.Refreshable
import Tenderize.Properties.RefreshTotals
import Tenderize.Properties.Unstaked
import Tenderize.Properties.Activation
import Tenderize.Properties.Freshness
import Tenderize.Properties.ReserveFloor
import Tenderize.Properties.Encoding
import Tenderize.Properties.Storage
import Tenderize.Properties.Parsing
import Tenderize.Properties.UnstakeRequests
import Tenderize.Properties.Initialization
import Tenderize.Properties.Addresses
import Tenderize.Properties.DepositPaths
import Tenderize.Properties.ReservePlan
import Tenderize.Properties.MergePlan
import Tenderize.Properties.UnstakePlan
import Tenderize.Properties.Interference
import Tenderize.Properties.InstantWithdrawal
import Tenderize.Properties.AccountPairs
import Tenderize.Properties.AccountCache
import Tenderize.Properties.Traces
import Tenderize.Properties.Bystanders
import Tenderize.Properties.Governance
import Tenderize.Properties.Donations
import Tenderize.Properties.Sessions
import Tenderize.Properties.PoolUpdates
import Tenderize.Properties.CreditorRounds
import Tenderize.Properties.ValidatorCommands
import Tenderize.Properties.PoolCreation
import Tenderize.Properties.Cli
