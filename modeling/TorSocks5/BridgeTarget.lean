/-
**What a bridge line dials.**

A bridge line names a transport, an address, a fingerprint and parameters.  A WebTunnel bridge is
dialled where its parameters say: at `addr=` if it is there, and at the host of its `url=`
otherwise; any other bridge is dialled at its address.  The same plan decides which lines are the
same bridge and which host has to be looked up before the bridge can be reached.
-/

import Mathlib
import TorSocks5.ClientAcl
import TorSocks5.DnsFile
import TorSocks5.Splitting

set_option autoImplicit false

namespace BridgeTarget

open ClientAcl (IpAddr)
open Dns (AddrText)

/-! ### Lines and libraries -/

/-- A parsed bridge line. -/
structure BridgeLine where
  transport : Option (List Char)
  addr : IpAddr × ℕ
  fingerprint : Option (List Char)
  params : List (List Char × List Char)
  deriving DecidableEq

/-- What is read off a parsed URL. -/
structure Url where
  scheme : List Char
  hostStr : Option (List Char)
  port : Option ℕ
  portOrKnownDefault : Option ℕ
  path : List Char
  query : Option (List Char)

/-- What `Url::parse` may say. -/
inductive UrlResult
  | parsed (url : Url)
  /-- `ParseError::RelativeUrlWithoutBase`. -/
  | relative
  | invalid

/-- What is not this program's. -/
structure Library where
  parseLine : List Char → Option BridgeLine
  parseUrl : List Char → UrlResult
  validServerName : List Char → Bool
  parseSocketAddr : List Char → Option (IpAddr × ℕ)
  parseIpv6 : List Char → Option (BitVec 128)
  ipText : AddrText IpAddr

/-- The parameter of a name. -/
def BridgeLine.param (bridge : BridgeLine) (name : String) : Option (List Char) :=
  bridge.params.lookup name.toList

/-! ### The plan of a WebTunnel bridge -/

/-- `PreparedTarget`, and with the same fields `WebtunnelEndpointIdentity`. -/
structure PreparedTarget where
  dialHost : List Char
  dialPort : ℕ
  sni : List Char
  hostHeader : List Char
  requestTarget : List Char
  useTls : Bool
  deriving DecidableEq

/-- `parse_webtunnel_url`: a missing scheme is `https`. -/
def parseWebtunnelUrl (lib : Library) (urlStr : List Char) : Option Url :=
  match lib.parseUrl urlStr with
  | UrlResult.parsed url => some url
  | UrlResult.relative =>
    match lib.parseUrl ("https://".toList ++ urlStr) with
    | UrlResult.parsed url => some url
    | _ => none
  | UrlResult.invalid => none

/-- The brackets of an IPv6 literal go. -/
def stripBrackets (host : List Char) : List Char :=
    (host.dropWhile (· == '[')).rdropWhile (· == ']')

/-- The dial target of an `addr=` parameter. -/
def dialAddr (lib : Library) (addr : List Char) : Option (List Char × ℕ) :=
  match lib.parseSocketAddr addr with
  | some (ip, port) => some (lib.ipText.display ip, port)
  | none => do
      let (host, port) ← Text.rsplitOnce ':' addr
      if host.isEmpty || host.any fun c => c == ':' || c == '[' || c == ']' then none
      else
        let port ← Text.parseUnsigned 65536 port
        some (host, port)

/-- The dial target of a URL. -/
def dialUrl (url : Url) : Option (List Char × ℕ) := do
  let host ← url.hostStr.map stripBrackets
  let port ← url.portOrKnownDefault
  some (host, port)

/-- Path and query as configured. -/
def requestTarget (url : Url) : List Char :=
  let path := if url.path.isEmpty then ['/'] else url.path
  match url.query with
  | some q => if q.isEmpty then path else path ++ '?' :: q
  | none => path

/-- The name, in brackets if it is an IPv6 address, and the port of the URL if it has one of its
own. -/
def hostHeader (lib : Library) (sni : List Char) (url : Url) : List Char :=
  (if (lib.parseIpv6 sni).isSome then '[' :: sni ++ [']'] else sni) ++
    match url.port with
    | some port => ':' :: Nat.toDigits 10 port
    | none => []

/-- `PreparedTarget::new`. -/
def prepareTarget (lib : Library) (bridge : BridgeLine) : Option PreparedTarget := do
  let urlStr ← bridge.param "url"
  let url ← parseWebtunnelUrl lib urlStr
  if !eqIgnoreAsciiCase url.scheme "http".toList && !eqIgnoreAsciiCase url.scheme "https".toList then none
  else
    let sni ← match bridge.param "servername" with
      | some name => some (stripBrackets name)
      | none => url.hostStr.map stripBrackets
    if !lib.validServerName sni then none
    else
      let (dialHost, dialPort) ← match bridge.param "addr" with
        | some addr => dialAddr lib addr
        | none => dialUrl url
      some {
        dialHost := dialHost
        dialPort := dialPort
        sni := sni
        hostHeader := hostHeader lib sni url
        requestTarget := requestTarget url
        useTls := eqIgnoreAsciiCase url.scheme "https".toList }

/-! ### Identities and hosts -/

def webtunnel : List Char := "webtunnel".toList

/-- `BridgeIdentity`. -/
structure BridgeIdentity where
  transport : Option (List Char)
  addr : IpAddr × ℕ
  fingerprint : Option (List Char)
  webtunnel : Option PreparedTarget
  cert : Option (List Char)
  deriving DecidableEq

/-- `webtunnel_endpoint_identity`. -/
def webtunnelEndpointIdentity (lib : Library) (bridge : BridgeLine) : Option PreparedTarget :=
  if bridge.transport = some webtunnel then prepareTarget lib bridge else none

/-- `bridge_identity`. -/
def bridgeIdentity (lib : Library) (bridge : BridgeLine) : BridgeIdentity where
  transport := bridge.transport
  addr := bridge.addr
  fingerprint := bridge.fingerprint
  webtunnel := webtunnelEndpointIdentity lib bridge
  cert := bridge.param "cert"

/-- `usable_for_tor`: not a WebTunnel line without a target, and not a documentation address. -/
def usableForTor (bridge : BridgeLine) : Bool :=
  if bridge.transport = some webtunnel then
    (bridge.param "url").isSome || (bridge.param "addr").isSome
  else
    match bridge.addr.1 with
    | IpAddr.v4 _ => true
    | IpAddr.v6 bits => !(bits >>> 96 == 0x20010db8#128)

/-- `resolve_probe_target`. -/
def resolveProbeTarget (lib : Library) (bridge : BridgeLine) : Option (List Char × ℕ) :=
  if bridge.transport = some webtunnel then
    (prepareTarget lib bridge).map fun t => (t.dialHost, t.dialPort)
  else some (lib.ipText.display bridge.addr.1, bridge.addr.2)

/-- `dns_hostname_of`. -/
def dnsHostnameOf (lib : Library) (bridge : BridgeLine) : Option (List Char) := do
  let (host, _) ← resolveProbeTarget lib bridge
  if (lib.ipText.parse host).isSome then none else some host

end BridgeTarget
