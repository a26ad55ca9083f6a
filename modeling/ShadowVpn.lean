import ShadowVpn.Lib.Run
import ShadowVpn.Proofs.Codec
import ShadowVpn.Proofs.Mesh
import ShadowVpn.Proofs.Kernel
import ShadowVpn.Proofs.Config
import ShadowVpn.Proofs.Persistence
import ShadowVpn.Proofs.Delivery
import ShadowVpn.Proofs.Roaming
import ShadowVpn.Proofs.Hostname
import ShadowVpn.Proofs.Pool
import ShadowVpn.Proofs.Nat
import ShadowVpn.Proofs.Cache
import ShadowVpn.Proofs.Resolver
import ShadowVpn.Proofs.Dns
import ShadowVpn.Proofs.Elevation
import ShadowVpn.Proofs.Intercept
import ShadowVpn.Proofs.Policy
import ShadowVpn.Proofs.Client
import ShadowVpn.Proofs.Carrier
import ShadowVpn.Proofs.Ranges
import ShadowVpn.Proofs.NodeText
import ShadowVpn.Proofs.Profiles
import ShadowVpn.Proofs.Helper
import ShadowVpn.Proofs.Desktop
import ShadowVpn.Proofs.Network
import ShadowVpn.Proofs.State
import ShadowVpn.Proofs.Identity
import ShadowVpn.Proofs.DnsConf
import ShadowVpn.Sanity.Persist
import ShadowVpn.Spec.Client
import ShadowVpn.Sanity.Client
import ShadowVpn.Proofs.Overlay
import ShadowVpn.Proofs.Uri
