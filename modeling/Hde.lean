import Hde.Corruption
import Hde.Expiry
import Hde.Heard
import Hde.History
import Hde.Isolation
import Hde.Marshals
import Hde.Overwrites
import Hde.Published
import Hde.Provenance
import Hde.Reassembly
import Hde.Saving
import Hde.Stranding
import Hde.Writers
import Hde.Bursts
import Hde.Crc32
import Hde.LastWrites
import Hde.Pieces
import Hde.Recognition
import Hde.Reencoding
import Hde.Restoring
import Hde.Archive
import Hde.Batches
import Hde.Draining
import Hde.Outcomes
import Hde.Paths
import Hde.Repair
import Hde.Sizes
import Hde.Accounts
import Hde.Backend
import Hde.Batching
import Hde.Logins
import Hde.Network
import Hde.Shutdown
import Hde.Storing
