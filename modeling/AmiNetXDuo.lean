import AmiNetXDuo.Bpf.Channel
import AmiNetXDuo.Bpf.Complement
import AmiNetXDuo.BsdSocket.HandoffSections
import AmiNetXDuo.BsdSocket.OobFilter
import AmiNetXDuo.BsdSocket.SendTcp
import AmiNetXDuo.Config.InterfaceLines
import AmiNetXDuo.Config.InterfaceZones
import AmiNetXDuo.Config.NetdbCheck
import AmiNetXDuo.Config.Resolver
import AmiNetXDuo.Config.Routes
import AmiNetXDuo.Config.SearchOption
import AmiNetXDuo.Config.Suggest
import AmiNetXDuo.Crypto68k.ChaCha20Poly1305
import AmiNetXDuo.Crypto68k.Scalar25519
import AmiNetXDuo.Crypto68k.Sha256
import AmiNetXDuo.Crypto68k.X25519
import AmiNetXDuo.Mbuf.PoolGiveUp
import AmiNetXDuo.Mbuf.Pullup
import AmiNetXDuo.Net68k.ChecksumChain
import AmiNetXDuo.Net68k.RxShape
import AmiNetXDuo.Netdev.GenetHold
import AmiNetXDuo.Netdev.GenetTx
import AmiNetXDuo.Netdev.McastHistory
import AmiNetXDuo.Netstack.Gateway
import AmiNetXDuo.Netstack.RaHandoff
import AmiNetXDuo.Rfb.PackBits
import AmiNetXDuo.Sana2.AckInterval
import AmiNetXDuo.Sana2.AckWake
import AmiNetXDuo.Sana2.GroFrames
import AmiNetXDuo.Sana2.GroTransparent
import AmiNetXDuo.TlsLib.ClientHello
import AmiNetXDuo.TlsLib.ResumeRuns
import AmiNetXDuo.TlsLib.TrustStore
import AmiNetXDuo.Tools.HttpChunk
import AmiNetXDuo.Tools.HttpDate
import AmiNetXDuo.Tools.HttpLock
import AmiNetXDuo.Tools.HttpWsB64
import AmiNetXDuo.Tools.IperfSeq
import AmiNetXDuo.Tools.WifiSwitch
