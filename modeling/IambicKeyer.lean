import IambicKeyer.Main
import IambicKeyer.Proofs.Machine.Decision
import IambicKeyer.Proofs.Machine.Punctuality
import IambicKeyer.Proofs.Stream.Journal
import IambicKeyer.Proofs.Keyer.KeyLine
import IambicKeyer.Proofs.Keyer.Timestamps
import IambicKeyer.Proofs.Machine.Rundown
import IambicKeyer.Proofs.Machine.Squeeze
import IambicKeyer.Proofs.Machine.Queueing
import IambicKeyer.Proofs.Machine.Likeness
import IambicKeyer.Proofs.Keyer.Coherence
import IambicKeyer.Proofs.Settings.Writes
import IambicKeyer.Proofs.Keyer.Beats
import IambicKeyer.Proofs.Keyer.Spaces
import IambicKeyer.Proofs.Bench.Rounds
import IambicKeyer.Proofs.Bench.KeyDown
import IambicKeyer.Proofs.Stream.Tenancy
import IambicKeyer.Proofs.Stream.Separation
import IambicKeyer.Proofs.Keyer.Silence
import IambicKeyer.Proofs.Log.Queue
import IambicKeyer.Proofs.Bench.Monitor
import IambicKeyer.Proofs.Stream.Access
import IambicKeyer.Proofs.Stream.Strangers
import IambicKeyer.Proofs.Bench.Shift
import IambicKeyer.Proofs.Bench.Schedule
import IambicKeyer.Proofs.Keyer.Listener
import IambicKeyer.Proofs.Keyer.Regressions
import IambicKeyer.Proofs.Stream.Parting
import IambicKeyer.Proofs.Keyer.Stretches
import IambicKeyer.Proofs.Keyer.Overflow
import IambicKeyer.Proofs.Log.Delivery
import IambicKeyer.Proofs.Bench.Playing
