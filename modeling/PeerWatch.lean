import PeerWatch.Main
import PeerWatch.Proofs.LiveView
import PeerWatch.Proofs.WireRecord
import PeerWatch.Proofs.Freshness
import PeerWatch.Proofs.Redaction
import PeerWatch.Proofs.Meeting
import PeerWatch.Proofs.Cancellation
import PeerWatch.Proofs.RoundReport
import PeerWatch.Proofs.Accounts
import PeerWatch.Proofs.ReaderBounds
import PeerWatch.Proofs.CutResponse
import PeerWatch.Proofs.AdvertText
import PeerWatch.Proofs.TolerantDocument
import PeerWatch.Proofs.Framing
import PeerWatch.Proofs.StrictRecord
import PeerWatch.Proofs.Subscribers
import PeerWatch.Proofs.SettingsJson
import PeerWatch.Proofs.ProbedSocket
