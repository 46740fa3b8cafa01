import EspAudio.Dhcps.Answers
import EspAudio.Reactive.Unrolling

/-!
# The access point in the adapter (`tcpip_adapter_lwip.c`)

The adapter brings the interface of the access point up and down and starts and
stops its DHCP server. The calls are carried out by the thread of the TCP/IP
stack, between datagrams and ticks of the lease timer. Options are set by the
task that asks for it, without a lock: here its check and its store are one step.
Memory for the interface and the UDP block is taken to be there.
-/

namespace EspAudio.TcpipAdapter

open CLanguage Dhcps Reactive

inductive AdapterErr where
  | espOk
  | invalidParams
  | ifNotReady
  | dhcpAlreadyStarted
  | dhcpAlreadyStopped
  | dhcpNotStopped
  deriving DecidableEq, Repr

inductive DhcpStatus where
  | init
  | started
  | stopped
  deriving DecidableEq, Repr

structure IpInfo where
  ip : Ip4Addr
  netmask : Ip4Addr
  gw : Ip4Addr
  deriving DecidableEq

structure Netif where
  up : Bool
  ipInfo : IpInfo
  -- Whether there is a UDP block, which delivers to the server.
  dhcpsPcb : Bool

/-- The options of the server, with their values. -/
inductive DhcpsOption where
  | ipAddressLeaseTime (minutes : BitVec 32)
  | requestedIpAddress (poll : DhcpsLease)
  | routerSolicitationAddress (enable : BitVec 8)
  | domainNameServer (enable : BitVec 8)
  -- An unknown identifier, or a length that does not fit.
  | other
  deriving DecidableEq

structure Adapter where
  espNetif : Option Netif
  espIp : IpInfo
  dhcpsStatus : DhcpStatus
  dhcps : DhcpServer

/-- After `tcpip_adapter_init`. -/
def tcpipAdapterInit : Adapter where
  espNetif := none
  espIp := ⟨ip4Addr 192 168 4 1, ip4Addr 255 255 255 0, ip4Addr 192 168 4 1⟩
  dhcpsStatus := .init
  dhcps := dhcpsInit

/-- `p_netif != NULL && netif_is_up(p_netif)`. -/
def Adapter.netifUp (s : Adapter) : Option Netif := s.espNetif.filter Netif.up

/-- A UDP block delivers to the server. -/
def Adapter.listening (s : Adapter) : Bool := (s.espNetif.map Netif.dhcpsPcb).getD false

def getIpInfo (s : Adapter) : IpInfo := (s.netifUp.map Netif.ipInfo).getD s.espIp

/-- `dhcps_start` on the interface, and the status that follows it. -/
def startServer (s : Adapter) (n : Netif) (ip : Ip4Addr) : Adapter :=
  { s with
    espNetif := some { n with dhcpsPcb := true }
    dhcpsStatus := .started
    dhcps := dhcpsStart s.dhcps ip }

/-- `tcpip_adapter_ap_start`. -/
def apStart (s : Adapter) (mac : Bool) (ipInfo : Option IpInfo) : Adapter × AdapterErr :=
  match mac, ipInfo with
  | true, some ipInfo =>
      let n := s.netifUp.getD ⟨false, ipInfo, s.listening⟩
      let s := { s with espNetif := some { n with up := true } }
      if s.dhcpsStatus = .init then
        let s := { s with dhcps := { s.dhcps with dhcpsCb := some .tcpipAdapterDhcpsCb } }
        (startServer s { n with up := true } ipInfo.ip, .espOk)
      else (s, .espOk)
  | _, _ => (s, .invalidParams)

/-- `tcpip_adapter_stop`. -/
def adapterStop (s : Adapter) : Adapter × AdapterErr :=
  match s.netifUp with
  | none => (s, .ifNotReady)
  | some n =>
      ({ s with
        espNetif := some { n with up := false, dhcpsPcb := false }
        dhcpsStatus := if s.dhcpsStatus = .stopped then .stopped else .init
        dhcps := dhcpsStop s.dhcps }, .espOk)

def setIpInfo (s : Adapter) (ipInfo : Option IpInfo) : Adapter × AdapterErr :=
  match ipInfo with
  | none => (s, .invalidParams)
  | some ipInfo =>
      if s.dhcpsStatus ≠ .stopped then (s, .dhcpNotStopped)
      else
        ({ s with
          espIp := ipInfo
          espNetif := s.espNetif.map fun n ↦ if n.up then { n with ipInfo } else n }, .espOk)

/-- `tcpip_adapter_dhcps_start`. -/
def adapterDhcpsStart (s : Adapter) : Adapter × AdapterErr :=
  if s.dhcpsStatus = .started then (s, .dhcpAlreadyStarted)
  else
    match s.netifUp with
    | some n => (startServer s n (getIpInfo s).ip, .espOk)
    | none => ({ s with dhcpsStatus := .init }, .espOk)

/-- `tcpip_adapter_dhcps_stop`. -/
def adapterDhcpsStop (s : Adapter) : Adapter × AdapterErr :=
  match s.dhcpsStatus with
  | .started =>
      match s.espNetif with
      | some n =>
          ({ s with
            espNetif := some { n with dhcpsPcb := false }
            dhcpsStatus := .stopped
            dhcps := dhcpsStop s.dhcps }, .espOk)
      | none => (s, .ifNotReady)
  | .stopped => (s, .dhcpAlreadyStopped)
  | .init => ({ s with dhcpsStatus := .stopped }, .espOk)

/-- `tcpip_adapter_dhcps_option` with `TCPIP_ADAPTER_OP_SET`. -/
def dhcpsOptionSet (s : Adapter) (opt : DhcpsOption) : Adapter × AdapterErr :=
  if opt = .other then (s, .invalidParams)
  else if s.dhcpsStatus = .started then (s, .dhcpAlreadyStarted)
  else
    match opt with
    | .ipAddressLeaseTime minutes =>
        let dhcpsLeaseTime := if minutes ≠ 0 then minutes else dhcpsLeaseTimeDef
        ({ s with dhcps := { s.dhcps with dhcpsLeaseTime } }, .espOk)
    | .requestedIpAddress poll =>
        if poll.enable = true ∧
            pollUnfit (htonl poll.startIp) (htonl poll.endIp) (htonl (getIpInfo s).ip) then
          (s, .invalidParams)
        else ({ s with dhcps := { s.dhcps with dhcpsPoll := poll } }, .espOk)
    | .routerSolicitationAddress enable =>
        let dhcpsOffer :=
          if enable ≠ 0 then s.dhcps.dhcpsOffer ||| 1 else s.dhcps.dhcpsOffer &&& 0xFE
        ({ s with dhcps := { s.dhcps with dhcpsOffer } }, .espOk)
    | .domainNameServer enable =>
        let dhcpsDns := if enable ≠ 0 then s.dhcps.dhcpsDns ||| 2 else s.dhcps.dhcpsDns &&& 0xFD
        ({ s with dhcps := { s.dhcps with dhcpsDns } }, .espOk)
    | .other => (s, .espOk)

/-- `tcpip_adapter_set_dns_info`. The access point has a main server only, which is type 0. -/
def setDnsInfo (s : Adapter) (type : ℕ) (dns : Option Ip4Addr) : Adapter × AdapterErr :=
  match dns with
  | none => (s, .invalidParams)
  | some ip =>
      if 3 ≤ type ∨ ip = 0 ∨ type ≠ 0 then (s, .invalidParams)
      else ({ s with dhcps := { s.dhcps with dnsServer := ip } }, .espOk)

inductive AdapterInput where
  | apStart (mac : Bool) (ipInfo : Option IpInfo)
  | stop
  | setIpInfo (ipInfo : Option IpInfo)
  | dhcpsStart
  | dhcpsStop
  | dhcpsOptionSet (opt : DhcpsOption)
  | setDnsInfo (type : ℕ) (dns : Option Ip4Addr)
  | receive (p : Pbuf) (beyond : Memory) (r : SendResults)
  | coarseTmr

inductive AdapterOutput where
  | returned (err : AdapterErr)
  | dhcps (o : DhcpsOutput)
  deriving DecidableEq

/-- A datagram for the port of the server. Without a UDP block it goes nowhere. -/
def receive (s : Adapter) (p : Pbuf) (beyond : Memory) (r : SendResults) :
    Adapter × List DhcpsOutput :=
  if s.listening then
    let (dhcps, os) := handleDhcp (getIpInfo s).gw s.dhcps p beyond r
    ({ s with dhcps }, os)
  else (s, [])

def adapterMachine : Machine Adapter AdapterInput AdapterOutput where
  step s
    | .apStart mac ipInfo => ((apStart s mac ipInfo).1, [.returned (apStart s mac ipInfo).2])
    | .stop => ((adapterStop s).1, [.returned (adapterStop s).2])
    | .setIpInfo ipInfo => ((setIpInfo s ipInfo).1, [.returned (setIpInfo s ipInfo).2])
    | .dhcpsStart => ((adapterDhcpsStart s).1, [.returned (adapterDhcpsStart s).2])
    | .dhcpsStop => ((adapterDhcpsStop s).1, [.returned (adapterDhcpsStop s).2])
    | .dhcpsOptionSet opt => ((dhcpsOptionSet s opt).1, [.returned (dhcpsOptionSet s opt).2])
    | .setDnsInfo type dns => ((setDnsInfo s type dns).1, [.returned (setDnsInfo s type dns).2])
    | .receive p beyond r => ((receive s p beyond r).1, (receive s p beyond r).2.map .dhcps)
    | .coarseTmr => ({ s with dhcps.plist := dhcpsCoarseTmr s.dhcps.plist }, [])

end EspAudio.TcpipAdapter
