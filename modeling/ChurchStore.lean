import ChurchStore.Main
import ChurchStore.Session
import ChurchStore.Term
import ChurchStore.Proofs.Simulation
import ChurchStore.Proofs.Simulation.Evaluation
import ChurchStore.Proofs.Session.Bindings
import ChurchStore.Proofs.Session.Run
import ChurchStore.Proofs.Simulation.Session
import ChurchStore.Proofs.Cells.Sound
import ChurchStore.Proofs.Grove
import ChurchStore.Proofs.Cells.Release
import ChurchStore.Proofs.Simulation.Run
import ChurchStore.Proofs.Representation
import ChurchStore.Proofs.Ledger
import ChurchStore.Proofs.Pool
import ChurchStore.Proofs.Pools
import ChurchStore.Proofs.SharedHeap
import ChurchStore.Proofs.Arena
import ChurchStore.Proofs.Agreement
import ChurchStore.Proofs.Depth
import ChurchStore.Proofs.Normalization
import ChurchStore.Proofs.Termination
import ChurchStore.Proofs.Liveness
import ChurchStore.Proofs.DeadClosures
import ChurchStore.Proofs.Reclamation
import ChurchStore.Proofs.Record
import ChurchStore.Proofs.Balance
import ChurchStore.Proofs.ValueStore
import ChurchStore.Proofs.Church
import ChurchStore.Proofs.Erasure
import ChurchStore.Proofs.Arenas.Evaluation
import ChurchStore.Proofs.Arithmetic
import ChurchStore.Proofs.Isolation
import ChurchStore.Proofs.Lockstep
import ChurchStore.Proofs.Arenas.Packing
import ChurchStore.Proofs.Simulation.Strengthening
import ChurchStore.Proofs.Timeline
import ChurchStore.Proofs.Totals
import ChurchStore.Proofs.Space
import ChurchStore.Proofs.Session.Plain
import ChurchStore.Proofs.Restoration
import ChurchStore.Proofs.Session.Focus
import ChurchStore.Proofs.Session.Turns
import ChurchStore.Proofs.Simulation.Company
import ChurchStore.Proofs.Sharing
import ChurchStore.Proofs.SharedHeap.Ledgers
import ChurchStore.Proofs.SharedHandles
import ChurchStore.Proofs.Demo.Truncation
import ChurchStore.Proofs.Reachable
import ChurchStore.Proofs.ChainArithmetic
import ChurchStore.Proofs.Demo.Text
import ChurchStore.Proofs.Upholding
import ChurchStore.Proofs.Session.Upholding
import ChurchStore.Proofs.Upholding.Counted
import ChurchStore.Proofs.Room
import ChurchStore.Proofs.CountingCosts
import ChurchStore.Proofs.Chains
import ChurchStore.Proofs.Arenas.Cutting
import ChurchStore.Proofs.Arenas.Renewal
import ChurchStore.Proofs.Arenas.Wrapping
import ChurchStore.Proofs.Arenas.Sizing
import ChurchStore.Proofs.Logging
import ChurchStore.Proofs.Naming
import ChurchStore.Proofs.Counting
import ChurchStore.Proofs.Demo.Coloring
import ChurchStore.Proofs.Cells.Standing
import ChurchStore.Proofs.Demo.Tracking
import ChurchStore.Proofs.BuiltinHandles
import ChurchStore.Proofs.Pools.SelfCapture
import ChurchStore.Proofs.Pools.Tidy
import ChurchStore.Proofs.BuiltinHandles.Counted
import ChurchStore.Proofs.Tables.StoreLaws
import ChurchStore.Proofs.Tables
import ChurchStore.Proofs.Tables.Stores
import ChurchStore.Proofs.Session.Evaluators
import ChurchStore.Proofs.Arenas.Evaluators
import ChurchStore.Proofs.Tables.Sessions
import ChurchStore.Proofs.Durations
