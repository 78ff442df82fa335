import LogReplica.Main
import LogReplica.Proofs.Codec.CborPayloads
import LogReplica.Proofs.Codec.Delimiting
import LogReplica.Proofs.Codec.Grammar
import LogReplica.Proofs.Codec.JsonPayloads
import LogReplica.Proofs.Replica.Accounting
import LogReplica.Proofs.Replica.Canonicity
import LogReplica.Proofs.Replica.Contended
import LogReplica.Proofs.Replica.Founding
import LogReplica.Proofs.Replica.Layout
import LogReplica.Proofs.Replica.Marking
import LogReplica.Proofs.Replica.Overtaking
import LogReplica.Proofs.Replica.Rebuilding
import LogReplica.Proofs.Replica.Recognition
import LogReplica.Proofs.Replica.Replays
import LogReplica.Proofs.Replica.Serializability
import LogReplica.Proofs.Replica.Transparency
import LogReplica.Proofs.Segment.Refinement
import LogReplica.Proofs.Set.Countdown
import LogReplica.Proofs.Set.Demonstration
import LogReplica.Proofs.Set.Linearizability
import LogReplica.Scenario.Play
import LogReplica.Trial.Compaction
import LogReplica.Trial.Sampling
