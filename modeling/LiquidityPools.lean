import LiquidityPools.Config.Environment
import LiquidityPools.Config.File
import LiquidityPools.Session
import LiquidityPools.Store.Script
import LiquidityPools.Proofs.Unit
import LiquidityPools.Proofs.Walk
import LiquidityPools.Proofs.Carrier
import LiquidityPools.Proofs.Program
import LiquidityPools.Proofs.Books
import LiquidityPools.Proofs.Dealing
import LiquidityPools.Proofs.Settlement
import LiquidityPools.Proofs.History
import LiquidityPools.Proofs.Conservation
import LiquidityPools.Proofs.Reentrancy
import LiquidityPools.Proofs.Rounding
import LiquidityPools.Proofs.Body
import LiquidityPools.Proofs.Audit
import LiquidityPools.Proofs.Publication
import LiquidityPools.Proofs.RoundTrip
import LiquidityPools.Proofs.Commitment
import LiquidityPools.Proofs.WellFormed
import LiquidityPools.Proofs.Solvency
import LiquidityPools.Proofs.Clearing
import LiquidityPools.Proofs.Paying
import LiquidityPools.Proofs.Sweep
import LiquidityPools.Proofs.Chronicle
import LiquidityPools.Proofs.Nested
import LiquidityPools.Proofs.Unaware
import LiquidityPools.Proofs.Dispatch
import LiquidityPools.Proofs.Verdict
import LiquidityPools.Proofs.Mirror
import LiquidityPools.Proofs.FullRun
import LiquidityPools.Proofs.Orders
import LiquidityPools.Proofs.Paired
import LiquidityPools.Proofs.Symmetry
import LiquidityPools.Proofs.Dust
import LiquidityPools.Proofs.Blind
import LiquidityPools.Proofs.Isolation
import LiquidityPools.Proofs.Chunks
import LiquidityPools.Proofs.Routine
import LiquidityPools.Proofs.Restoring
import LiquidityPools.Proofs.Interleaving
import LiquidityPools.Proofs.Bracket
import LiquidityPools.Proofs.Fate
import LiquidityPools.Proofs.Pricing
import LiquidityPools.Proofs.Headroom
import LiquidityPools.Proofs.Monotone
import LiquidityPools.Proofs.Execution
import LiquidityPools.Proofs.Indifference
import LiquidityPools.Proofs.TakingBack
import LiquidityPools.Proofs.Entry
import LiquidityPools.Proofs.Acceptance
import LiquidityPools.Proofs.Supply
import LiquidityPools.Proofs.Settings
