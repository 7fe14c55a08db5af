import Alighieri.Lib.Table
import Alighieri.Lib.Transition
import Alighieri.Config
import Alighieri.Net.Addr
import Alighieri.Net.Host
import Alighieri.Net.AddrSpec
import Alighieri.Acl
import Alighieri.Rdp.Frame
import Alighieri.Rdp.Stream
import Alighieri.Rdp.Endpoint
import Alighieri.Rdp.Client
import Alighieri.Rdp.Agent
import Alighieri.Rdp.Steps
import Alighieri.Rdp.Handlers
import Alighieri.Rdp.AgentBook
import Alighieri.Rdp.AgentTrail
import Alighieri.Rdp.StreamSound
import Alighieri.Rdp.StreamMoves
import Alighieri.Rdp.Side
import Alighieri.Rdp.Queues
import Alighieri.Rdp.ClientSide
import Alighieri.Rdp.AgentSide
import Alighieri.Rdp.SideSound
import Alighieri.Rdp.Grammar
import Alighieri.Rdp.Dialogue
import Alighieri.Rdp.Window
import Alighieri.Relay.Select
import Alighieri.Relay.Copy
import Alighieri.Relay.Drain
import Alighieri.Relay.Watchdog
import Alighieri.Dns
import Alighieri.Relay.Udp
import Alighieri.Relay.Splice
import Alighieri.Proxy.Connection
import Alighieri.Proxy.Literals
import Alighieri.Proxy.Mediation
import Alighieri.Lib.Reader
import Alighieri.Rdp.Codec
import Alighieri.Rdp.RoundTrip
import Alighieri.Lib.Framing
import Alighieri.Rdp.Decoder
import Alighieri.Rdp.Handshake
import Alighieri.Abuse.Controls
import Alighieri.Abuse.Permits
import Alighieri.Abuse.Limits
import Alighieri.Abuse.Reload
import Alighieri.Rdp.Slots
import Alighieri.Rdp.SlotBook
import Alighieri.Rdp.SlotSteps
import Alighieri.Rdp.SlotRuns
import Alighieri.Rdp.Session
import Alighieri.Rdp.Buffers
import Alighieri.Rdp.AgentSpeech
import Alighieri.Rdp.Accounts
import Alighieri.Rdp.Lane
import Alighieri.Rdp.LaneMoves
import Alighieri.Rdp.Keepalive
import Alighieri.Rdp.Order
import Alighieri.Rdp.Conform
import Alighieri.Rdp.Backpressure
import Alighieri.Rdp.Agreement
import Alighieri.Rdp.Transfer
import Alighieri.Rdp.Writer
import Alighieri.Rdp.Admission
import Alighieri.Rdp.Flush
import Alighieri.Rdp.Diagnostic
import Alighieri.Rdp.Outgoing
import Alighieri.Rdp.Reassembler
import Alighieri.Lib.Envelope
import Alighieri.Throttle
import Alighieri.Rdp.Hostname
import Alighieri.Lib.Decimal
import Alighieri.Net.Number
import Alighieri.Installer.Request
import Alighieri.Installer.Platform
import Alighieri.Net.IpText
import Alighieri.Net.IpSpelling
import Alighieri.Auth
import Alighieri.ProxyProtocol
import Alighieri.Dns.Cache
import Alighieri.Lib.Singleflight
import Alighieri.Dns.Resolver
import Alighieri.Dns.Flight
import Alighieri.Dns.Freshness
import Alighieri.Net.SpecText
import Alighieri.Config.RuleBlock
import Alighieri.Lib.LastWins
import Alighieri.Config.RuleValues
import Alighieri.Config.Selectors
import Alighieri.Lib.Recency
import Alighieri.Relay.Contacted
import Alighieri.Net.HostMatch
import Alighieri.Dns.Policy
import Alighieri.Rdp.Candidates
import Alighieri.Runtime.Rotation
import Alighieri.Auth.Userlist
import Alighieri.Config.Wildcard
import Alighieri.Proxy.UdpPorts
import Alighieri.Lib.ShellWords
import Alighieri.Wizard.Shell
import Alighieri.Config.Include
import Alighieri.Plugin.Peekable
import Alighieri.Runtime.LogFamily
import Alighieri.Runtime.LogWorker
import Alighieri.Runtime.RotationFaults
