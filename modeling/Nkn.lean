import Nkn.Soundness.Donation
import Nkn.Soundness.Replay
import Nkn.Soundness.Supply
import Nkn.Soundness.Tip
import Nkn.Soundness.Winner
import Nkn.Soundness.StorageFaults
import Nkn.Soundness.StateRoot
import Nkn.Soundness.Ownership
import Nkn.Soundness.Rollback
import Nkn.Soundness.IdVersions
import Nkn.Soundness.Expirations
import Nkn.Soundness.TrieRetention
import Nkn.Soundness.HeaderSync
import Nkn.Soundness.Resume
import Nkn.Soundness.Lookalikes
import Nkn.Soundness.CleanUndo
import Nkn.Soundness.Fingerprint
import Nkn.Soundness.MiningSigChain
import Nkn.Soundness.FirstVote
import Nkn.Soundness.ProposalCache
import Nkn.Soundness.StateSync
import Nkn.Soundness.RecentTransactions
import Nkn.Soundness.ElectionResult
import Nkn.Soundness.SkippedMiners
import Nkn.Soundness.ProposerSchedule
import Nkn.Soundness.MessageBuffer
import Nkn.Soundness.HonestRelays
import Nkn.Soundness.NodeEncoding
import Nkn.Soundness.StoredBlocks
import Nkn.Soundness.QueriedState
import Nkn.Soundness.Collection
import Nkn.Soundness.SignatureHash
