import ServerLink.Auth.ReadyCommand
import ServerLink.Core.Accounting
import ServerLink.Core.Agreement
import ServerLink.Core.Attribution
import ServerLink.Core.Identity
import ServerLink.Core.Names
import ServerLink.Core.PeerIdentity
import ServerLink.Core.Sifting
import ServerLink.Core.Topics
import ServerLink.Core.UnsplitMessages
import ServerLink.Core.WholeMessages
import ServerLink.Pattern.GlobGrammar
import ServerLink.Pipe.Capacity
import ServerLink.Pipe.Fairness
import ServerLink.Pipe.PrefixSet
import ServerLink.Protocol.EngineOutput
import ServerLink.Protocol.Fragmentation
import ServerLink.Protocol.ReceiveBuffers
import ServerLink.Protocol.RoundTrip
import ServerLink.Protocol.SubscriptionTrip
import ServerLink.Spot.Delivery
import ServerLink.Spot.FailedCalls
import ServerLink.Spot.Interleaving
import ServerLink.Spot.Receive
import ServerLink.Spot.Unsubscribe
import ServerLink.Transport.IpResolver
import ServerLink.Transport.ReconnectInterval
import ServerLink.Util.TimersTermination
import ServerLink.Util.YPipe
