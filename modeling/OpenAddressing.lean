import OpenAddressing.Session.Basic
import OpenAddressing.Keys
import OpenAddressing.Text.Containers
import OpenAddressing.Proofs.Acts
import OpenAddressing.Proofs.Search
import OpenAddressing.Proofs.Changes
import OpenAddressing.Proofs.Evolution
import OpenAddressing.Proofs.Rebuilds
import OpenAddressing.Proofs.Updates
import OpenAddressing.Proofs.Calls
import OpenAddressing.Proofs.Clearing
import OpenAddressing.Proofs.Nested
import OpenAddressing.Proofs.Sessions
import OpenAddressing.Proofs.Covering
import OpenAddressing.Proofs.Purging
import OpenAddressing.Proofs.Reference
import OpenAddressing.Proofs.Refinement
import OpenAddressing.Proofs.Limits
import OpenAddressing.Proofs.Interruptions
import OpenAddressing.Proofs.Deliveries
import OpenAddressing.Proofs.Rewrites
import OpenAddressing.Proofs.Balances
import OpenAddressing.Proofs.Transfers
import OpenAddressing.Proofs.Ownership
import OpenAddressing.Proofs.Places
import OpenAddressing.Proofs.Tours
import OpenAddressing.Proofs.Targets
import OpenAddressing.Proofs.Loads
import OpenAddressing.Proofs.Reservations
import OpenAddressing.Proofs.Hookless
import OpenAddressing.Proofs.Remnants
import OpenAddressing.Proofs.Atomicity
import OpenAddressing.Proofs.Transcripts
import OpenAddressing.Proofs.Reentrancy
import OpenAddressing.Proofs.Landings
import OpenAddressing.Proofs.Readback
import OpenAddressing.Proofs.Access
import OpenAddressing.Proofs.Layouts
import OpenAddressing.Proofs.Growth
import OpenAddressing.Proofs.Blocks
import OpenAddressing.Proofs.Indexed
import OpenAddressing.Proofs.Comparisons
import OpenAddressing.Proofs.Questions
import OpenAddressing.Proofs.Iterations
import OpenAddressing.Proofs.Snapshots
import OpenAddressing.Proofs.ValueWrites
import OpenAddressing.Proofs.Digits
import OpenAddressing.Proofs.Polynomials
import OpenAddressing.Proofs.Transpositions
import OpenAddressing.Proofs.Rotations
