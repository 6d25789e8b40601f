import SplitDns.Main
import SplitDns.Service.Backoff
import SplitDns.Proofs.Reading
import SplitDns.Proofs.Abbreviation
import SplitDns.Proofs.NameText
import SplitDns.Proofs.Records
import SplitDns.Proofs.Messages
import SplitDns.Proofs.CacheKey
import SplitDns.Proofs.CacheEntries
import SplitDns.Proofs.Progress
import SplitDns.Proofs.Effects
import SplitDns.Proofs.LetterCase
import SplitDns.Proofs.Interleaving
import SplitDns.Proofs.Datagram
import SplitDns.Proofs.Stamping
import SplitDns.Proofs.Overlap
import SplitDns.Proofs.Routing
import SplitDns.Proofs.Callable
import SplitDns.Proofs.Recency
import SplitDns.Proofs.Lockstep
import SplitDns.Proofs.Sequence
import SplitDns.Proofs.LoopGuard
import SplitDns.Proofs.NameSpelling
import SplitDns.Proofs.Respelling
import SplitDns.Proofs.CanonicalForm
import SplitDns.Proofs.LongestSuffix
import SplitDns.Proofs.LabelBoundary
import SplitDns.Proofs.Fallback
import SplitDns.Proofs.Room
import SplitDns.Proofs.Relay
import SplitDns.Proofs.RuleForms
import SplitDns.Proofs.Precedence
import SplitDns.Proofs.Pieces
import SplitDns.Proofs.AddressText
import SplitDns.Proofs.NameReading
import SplitDns.Proofs.HostsFile
import SplitDns.Proofs.HostsAnswer
import SplitDns.Proofs.Exchanges
import SplitDns.Proofs.Tunnel
import SplitDns.Proofs.Unsent
import SplitDns.Proofs.Questions
import SplitDns.Proofs.Framed
import SplitDns.Proofs.WriteBack
import SplitDns.Proofs.SocketText
import SplitDns.Proofs.TextCodecs
import SplitDns.Proofs.RuleFile
import SplitDns.Proofs.ConnectRequest
import SplitDns.Proofs.DefaultPort
import SplitDns.Proofs.Dialable
import SplitDns.Proofs.SharedSet
import SplitDns.Proofs.Pauses
