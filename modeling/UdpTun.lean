import UdpTun.Lib.Ledger
import UdpTun.Lib.OrdMap
import UdpTun.Lib.Buckets
import UdpTun.Lib.PrefixCode
import UdpTun.Lib.Run
import UdpTun.Lib.Line
import UdpTun.Lib.TextStream
import UdpTun.Halt
import UdpTun.Marshaling
import UdpTun.SockAddrs
import UdpTun.Scheduling
import UdpTun.Scheduling.Registration
import UdpTun.Scheduling.Lifetimes
import UdpTun.Scheduling.Dispatch
import UdpTun.Scheduling.Cancellation
import UdpTun.Scheduling.Signals
import UdpTun.Scheduling.Timeout
import UdpTun.Scheduling.Timers
import UdpTun.Scheduling.SignalEvents
import UdpTun.ClientId
import UdpTun.ClientId.Consistency
import UdpTun.ClientId.WireIds
import UdpTun.ClientId.Roll
import UdpTun.ClientId.Database
import UdpTun.Payloads
import UdpTun.Queues
import UdpTun.Queues.Fifo
import UdpTun.Queues.Order
import UdpTun.Queues.Contents
import UdpTun.Queues.Notices
import UdpTun.Queues.FileNames
import UdpTun.Queues.Construction
import UdpTun.Queues.Restart
import UdpTun.Queues.Bounds
import UdpTun.Queues.Balance
import UdpTun.Queues.Oldest
import UdpTun.Quotas
import UdpTun.Quotas.Accounts
import UdpTun.Quotas.Enforcement
import UdpTun.Quotas.Consistency
import UdpTun.Channels
import UdpTun.Channels.Assertions
import UdpTun.Channels.Progress
import UdpTun.Channels.Framing
import UdpTun.Addressing
import UdpTun.TcpIngress
import UdpTun.TcpIngress.Steps
import UdpTun.TcpIngress.Events
import UdpTun.TcpIngress.Failures
import UdpTun.TcpIngress.Exclusion
import UdpTun.TcpIngress.Connecting
import UdpTun.TcpIngress.Attempts
import UdpTun.TcpIngress.Wakeups
import UdpTun.TcpIngress.Notifications
import UdpTun.TcpIngress.Frames
import UdpTun.TcpIngress.Sharing
import UdpTun.TcpIngress.Records
import UdpTun.AddressEntries
import UdpTun.Destinations
import UdpTun.Destinations.Selection
import UdpTun.Emitters
import UdpTun.TcpEgress.Connection
import UdpTun.TcpEgress
import UdpTun.TcpEgress.Listeners
import UdpTun.TcpEgress.Accepting
import UdpTun.TcpEgress.Housekeeping
import UdpTun.TcpEgress.Connections
import UdpTun.TcpEgress.Histories
import UdpTun.Peers
import UdpTun.TcpEgress.Admission
import UdpTun.TcpEgress.Clients
import UdpTun.Lib.Scanner
import UdpTun.Absorbers
import UdpTun.Durations
import UdpTun.Yaml
import UdpTun.Configuration
import UdpTun.Logging
import UdpTun.Logging.Reloads
import UdpTun.Main
import UdpTun.Main.Steps
import UdpTun.Main.Signals
import UdpTun.Main.Draining
import UdpTun.Main.Rounds
import UdpTun.Tunnel
import UdpTun.Tunnel.Ends
import UdpTun.Tunnel.Senders
