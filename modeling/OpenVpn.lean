import OpenVpn.BigEndian
import OpenVpn.Buffer
import OpenVpn.BufferSafety
import OpenVpn.BufferSpec
import OpenVpn.CircList
import OpenVpn.CryptoEpoch
import OpenVpn.CryptoEpochSend
import OpenVpn.CryptoEpochWindow
import OpenVpn.PacketId
import OpenVpn.PacketIdSend
import OpenVpn.PacketIdSpec
import OpenVpn.ReplayWindow
import OpenVpn.ReliableAck
import OpenVpn.MoveToFront
import OpenVpn.SessionIdHmac
import OpenVpn.Reliable
import OpenVpn.ReliableRecv
import OpenVpn.ReliableSend
import OpenVpn.Fragment
import OpenVpn.FragmentRoundTrip
import OpenVpn.TlsCrypt
import OpenVpn.Pool
import OpenVpn.PoolRun
import OpenVpn.LinkedTree
import OpenVpn.Schedule
import OpenVpn.ScheduleSpec
import OpenVpn.ScheduleOps
import OpenVpn.ScheduleRun
import OpenVpn.AssocMap
import OpenVpn.Hash
import OpenVpn.HashSpec
import OpenVpn.HashOps
import OpenVpn.HashIter
import OpenVpn.HashRun
import OpenVpn.AuthToken
import OpenVpn.Validate
import OpenVpn.ReliableAckWrite
import OpenVpn.ReplayExact
import OpenVpn.ReplayReap
import OpenVpn.BufParse
import OpenVpn.BufferList
import OpenVpn.FrameSize
import OpenVpn.PoolIpv6
import OpenVpn.SocketAddr
import OpenVpn.PoolPersist
import OpenVpn.ParseLine
import OpenVpn.ServerHelper
import OpenVpn.RingQueue
import OpenVpn.Mbuf
import OpenVpn.MbufSpec
import OpenVpn.TagQueue
import OpenVpn.MbufRun
import OpenVpn.ClientNat
import OpenVpn.IpHeader
import OpenVpn.IpHeaderSafety
import OpenVpn.OnesComplement
import OpenVpn.ClientNatSpec
import OpenVpn.Icmp6
import OpenVpn.Icmp6Spec
import OpenVpn.PacketMemSpec
import OpenVpn.Mss
import OpenVpn.MssSpec
import OpenVpn.MssIp
import OpenVpn.Comp
import OpenVpn.CompRoundTrip
import OpenVpn.Dns
import OpenVpn.DnsSpec
import OpenVpn.CharClass
import OpenVpn.EnvSet
import OpenVpn.EnvSetSpec
import OpenVpn.ManageCommand
import OpenVpn.ManageCommandSpec
import OpenVpn.HkdfExpand
import OpenVpn.HkdfExpandSpec
import OpenVpn.TlsAuth
import OpenVpn.TlsAuthSpec
import OpenVpn.TlsAuthRoundTrip
import OpenVpn.Cells
import OpenVpn.Ntlm
import OpenVpn.NtlmSpec
import OpenVpn.Socks
import OpenVpn.SocksSpec
import OpenVpn.Argv
import OpenVpn.ArgvSpec
import OpenVpn.Vlan
import OpenVpn.MultiTap
import OpenVpn.VlanSpec
import OpenVpn.VlanIsolation
import OpenVpn.CArith
import OpenVpn.BinaryRound
import OpenVpn.Shaper
import OpenVpn.Sanitize
import OpenVpn.Dhcp
import OpenVpn.DhcpOptions
import OpenVpn.DhcpSpec
import OpenVpn.ProcessIpHeader
