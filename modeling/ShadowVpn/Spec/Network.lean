import ShadowVpn.Lib.Star
import ShadowVpn.Spec.Node

/-! A server and its clients over one network, which may lose, double, hold up and reorder
datagrams. -/

namespace ShadowVpn

open Lib

/-- What goes over the network. -/
def Emit.mail : Emit → Option (SocketAddr × Bytes)
  | .send peer payload => some (peer, payload)
  | .tun _ => none

/-- A server and the clients that are set up for it, with the endpoints that each client may be
seen at: an endpoint is one client's throughout, and is not handed on. -/
structure Deployment (κ : Type) where
  server : ServerConfig
  serverObfs : Option Obfuscator
  client : κ → ClientConfig
  clientObfs : κ → Option Obfuscator
  site : κ → ClientSite
  owner : SocketAddr → κ

namespace Deployment

variable {κ : Type} (L : Primitives) (P : Platform) (D : Deployment κ)

/-- Only the holders of the key can make a datagram that opens, so such a datagram brings what one
of them has sent. -/
def hears : Job → SocketAddr → Bytes → Prop
  | .datagram peer pkt, a, payload =>
    a = peer ∧ Opens L P D.server.cipher D.server.masterKey D.serverObfs pkt payload
  | .packet _, _, _ => False

def told (k : κ) : Job → Bytes → Prop
  | .datagram _ pkt, payload =>
    Opens L P (D.client k).cipher (D.client k).masterKey (D.clientObfs k) pkt payload
  | .packet _, _ => False

/-- What a device gives does not look like a control message. -/
def sound : Job → Prop
  | .datagram _ _ => True
  | .packet pkt => isControl pkt = false

theorem server_reads {loop : Loop} {r : Routing} {input job : Job}
    (h : (serverTasks L P D.server D.serverObfs).reads loop r input = some job) : job = input := by
  cases loop with
  | udpToTun =>
    cases input with
    | datagram peer pkt => exact (Option.some.inj h).symm
    | packet pkt => cases h
  | tunToUdp =>
    cases input with
    | datagram peer pkt => cases h
    | packet pkt => exact (Option.some.inj h).symm

theorem client_reads {k : κ} {loop : ClientLoop} {n : ClientNode} {input job : Job}
    (h : (ClientNode.tasks L P (D.site k) (D.client k) (D.clientObfs k)).reads loop n input =
      some job) : job = input := by
  simp only [ClientNode.tasks, ClientNode.reads] at h
  split at h
  · split_ifs at h
    exact (Option.some.inj h).symm
  · split_ifs at h
    exact (Option.some.inj h).symm
  · cases h

/-- All the tasks of all parties. -/
def network : TaskStar κ SocketAddr Bytes Routing ClientNode Loop ClientLoop Job RelayEnv ClientEnv
    RelayEnv ClientTick Emit Panic ClientFault where
  owner := D.owner
  hub := serverTasks L P D.server D.serverObfs
  spoke k := ClientNode.tasks L P (D.site k) (D.client k) (D.clientObfs k)
  mail := Emit.mail
  hears := D.hears L P
  told := D.told L P
  sound := sound
  hub_reads := server_reads L P D
  spoke_reads := client_reads L P D

/-- The parties as they enter their loops. -/
structure Starts (r : Routing) (nodes : κ → ClientNode) : Prop where
  server : ∃ clock now io disk, D.server.routing clock now io disk = .ok r
  clients : ∀ k, ∃ outside last, ClientNode.start (D.site k) outside (D.client k) last = .ok (nodes k)

end Deployment

end ShadowVpn
