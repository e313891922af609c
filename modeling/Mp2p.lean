import Mp2p.Proof.PacketFraming
import Mp2p.Proof.Messages
import Mp2p.Proof.RoundTrip
import Mp2p.Proof.Metadata
import Mp2p.Proof.Acknowledgements
import Mp2p.Proof.Concurrency
import Mp2p.Proof.Upload
import Mp2p.Proof.Download
import Mp2p.Proof.Serialization
import Mp2p.Proof.Redundancy
import Mp2p.Proof.Completeness
import Mp2p.Proof.Safety
import Mp2p.System.Uploads
import Mp2p.Proof.SmallUploads
import Mp2p.Proof.Coherence
import Mp2p.Proof.Replication
import Mp2p.Proof.Failures
import Mp2p.Proof.Durability
import Mp2p.Proof.HashCoverage
import Mp2p.Proof.PartBounds
import Mp2p.Proof.Transports
import Mp2p.Proof.Verdicts
import Mp2p.Proof.Assembly
import Mp2p.Proof.Versions
import Mp2p.Proof.Shutdown
import Mp2p.Proof.Finished
import Mp2p.Proof.Serial
import Mp2p.Lib.Simulation
import Mp2p.Lib.Spaced
import Mp2p.Master.Texts
import Mp2p.Proof.Refinement
import Mp2p.Lib.RelyGuarantee
import Mp2p.Proof.Isolation
import Mp2p.Proof.Exceptions
import Mp2p.Proof.Registration
