import Libfgw.Segment.RoundTrip
import Libfgw.Chunking
import Libfgw.ExactlyOnce
import Libfgw.ClosedSession
import Libfgw.CloseOrder
import Libfgw.Numbering
import Libfgw.Restart
import Libfgw.Replies
import Libfgw.Transparency
import Libfgw.ReverseRoute
import Libfgw.Removal
import Libfgw.RedialTarget
import Libfgw.Healing
import Libfgw.Leftover
import Libfgw.Socks5
import Libfgw.Callbacks
import Libfgw.RelayTables
import Libfgw.AllOrNothing
import Libfgw.Epochs
import Libfgw.Racing
import Libfgw.Segment.Corruption
import Libfgw.Window
import Libfgw.WrapAround
import Libfgw.Poisoning
import Libfgw.DualSend
import Libfgw.SendResult
import Libfgw.Refusal
import Libfgw.Displacement
import Libfgw.OutportRoutes
import Libfgw.OneReply
import Libfgw.Recommendation
import Libfgw.CloseRates
import Libfgw.Decay
import Libfgw.Stall
import Libfgw.Isolation
import Libfgw.Separation
import Libfgw.Segment.Checksum
import Libfgw.Clients
import Libfgw.Stopping
import Libfgw.EndToEnd
import Libfgw.Pack
import Libfgw.ConfigFile
import Libfgw.Handshake
