import LinkedDeque.Bench
import LinkedDeque.Pool.Trial
import LinkedDeque.Proofs.CursorWalk
import LinkedDeque.Proofs.Invariant
import LinkedDeque.Proofs.Ledger
import LinkedDeque.Session
import LinkedDeque.Proofs.Visits
import LinkedDeque.Proofs.Readings
import LinkedDeque.Proofs.Failures
import LinkedDeque.Proofs.Panics
import LinkedDeque.Proofs.Unwinding
import LinkedDeque.Proofs.Interleavings
import LinkedDeque.Proofs.Chained
import LinkedDeque.Proofs.Verified
import LinkedDeque.Proofs.Positions
import LinkedDeque.Proofs.Sifting
import LinkedDeque.Proofs.CursorIndex
import LinkedDeque.Proofs.Transformed
import LinkedDeque.Proofs.Twins
import LinkedDeque.Proofs.TwinWalks
import LinkedDeque.Proofs.Alone
import LinkedDeque.Proofs.Seeking
import LinkedDeque.Proofs.Edits
import LinkedDeque.Proofs.Images
import LinkedDeque.Proofs.Inverses
import LinkedDeque.Proofs.Joined
import LinkedDeque.Proofs.Destroyed
import LinkedDeque.Proofs.Commuting
import LinkedDeque.Proofs.Misuse
import LinkedDeque.Proofs.Visited
import LinkedDeque.Proofs.Recorded
import LinkedDeque.Proofs.Texts
import LinkedDeque.Proofs.Provenance
import LinkedDeque.Proofs.Sweeps
import LinkedDeque.Proofs.Sessions
