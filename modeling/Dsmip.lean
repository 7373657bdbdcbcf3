import Dsmip.Lib.Run
import Dsmip.Lib.Scan
import Dsmip.Lib.ObjectTable
import Dsmip.Lib.Sessions
import Dsmip.Lib.Edits
import Dsmip.Lib.FirstSeen
import Dsmip.Lib.Pieces
import Dsmip.Lib.History
import Dsmip.Lib.Words
import Dsmip.Lib.Emit
import Dsmip.Lib.KeyedSet
import Dsmip.Lib.Lease
import Dsmip.Lib.HashChains
import Dsmip.Lib.FallbackTable
import Dsmip.Lib.Frames
import Dsmip.Lib.LittleEndian
import Dsmip.Lib.LinkedCells
import Dsmip.Lib.Overwrite
import Dsmip.Lib.BoundedText
import Dsmip.Lib.CString
import Dsmip.Lib.TextFile
import Dsmip.Lib.Timeval
import Dsmip.Addr
import Dsmip.Kernel
import Dsmip.KernelLaws
import Dsmip.XfrmLaws
import Dsmip.Xfrm.Selector
import Dsmip.Xfrm.Encap
import Dsmip.Xfrm.Install
import Dsmip.Xfrm.FlowHandoff
import Dsmip.Xfrm.Refine
import Dsmip.HomeAgent.State
import Dsmip.HomeAgent.Probe
import Dsmip.HomeAgent.BindingUpdate
import Dsmip.HomeAgent.Loop
import Dsmip.HomeAgent.Step
import Dsmip.HomeAgent.Binding
import Dsmip.HomeAgent.Replace
import Dsmip.HomeAgent.Consistency
import Dsmip.HomeAgent.Encap
import Dsmip.HomeAgent.Isolation
import Dsmip.HomeAgent.FreshNat
import Dsmip.HomeAgent.NatCapture
import Dsmip.HomeAgent.Leftovers
import Dsmip.HomeAgent.Lifetime
import Dsmip.HomeAgent.Sequence
import Dsmip.HomeAgent.TmpTable
import Dsmip.HomeAgent.Refresh
import Dsmip.HomeAgent.Teardown
import Dsmip.HomeAgent.Shutdown
import Dsmip.HomeAgent.SlotAssignment
import Dsmip.Control.State
import Dsmip.Control.Dispatch
import Dsmip.Control.Commands
import Dsmip.Control.BeaconMiss
import Dsmip.Control.BeaconWait
import Dsmip.Control.RuleClear
import Dsmip.Control.SavedRoute
import Dsmip.Control.Arguments
import Dsmip.MobileNode.State
import Dsmip.MobileNode.Handoff
import Dsmip.MobileNode.Moves
import Dsmip.MobileNode.Installed
import Dsmip.MobileNode.Lookup
import Dsmip.MobileNode.MakeBeforeBreak
import Dsmip.MobileNode.Secured
import Dsmip.MobileNode.TunnelPool
import Dsmip.MobileNode.PoolAnswers
import Dsmip.MobileNode.PoolReplacement
import Dsmip.MobileNode.OldGateway
import Dsmip.MobileNode.Netlink
import Dsmip.MobileNode.Outcomes
import Dsmip.MobileNode.Fallback
import Dsmip.MobileNode.Events
import Dsmip.MobileNode.Contract
import Dsmip.MobileNode.Probed
import Dsmip.MobileNode.Table
import Dsmip.MobileNode.Preference
import Dsmip.MobileNode.Live
import Dsmip.MobileNode.LiveRun
import Dsmip.MobileNode.Replies
import Dsmip.Control.Notice
import Dsmip.Pair.State
import Dsmip.Pair.MobileSide
import Dsmip.Pair.Agreement
import Dsmip.Pair.Renewals
import Dsmip.Pair.KeepAlive
import Dsmip.Mobility.Header
import Dsmip.Mobility.Codec
import Dsmip.Mobility.RoundTrip
import Dsmip.Mobility.Grammar
import Dsmip.UdpEncap.Input
import Dsmip.UdpEncap.Filter
import Dsmip.UdpEncap.HeaderWalk
import Dsmip.UdpEncap.Output
import Dsmip.DataBuff.Queue
import Dsmip.DataBuff.Delivery
import Dsmip.DataBuff.Rounds
import Dsmip.DataBuff.Registry
import Dsmip.Config.Keys
import Dsmip.Config.MnList
import Dsmip.Ping.Disconnect
import Dsmip.HomeAgent.Messages
import Dsmip.HomeAgent.Answers
import Dsmip.HomeAgent.Bounds
import Dsmip.Tunnels.IpTables
import Dsmip.Tunnels.Ip6Tables
import Dsmip.Tunnels.Tunlctl
import Dsmip.Tunnels.Refine
import Dsmip.Tunnels.EncapLimit
import Dsmip.Netlink.Message
import Dsmip.Netlink.Requests
import Dsmip.Netlink.Sent
import Dsmip.Netlink.Listen
import Dsmip.Netlink.Events
import Dsmip.Lib.PolicyRouting
import Dsmip.Forwarding
import Dsmip.HomeAgent.Forward
import Dsmip.MobileNode.Forward
import Dsmip.Pair.Delivery
import Dsmip.MobileNode.Shutdown
