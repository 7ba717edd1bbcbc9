/-
**Client access lists.**

An `AllowedClients` list holds the compiled rules of an operator's allow-list and the text it was
written as.  A peer is normalised before it is matched: an IPv4 address that arrives in its
IPv4-mapped IPv6 form is the IPv4 address.
-/

import Mathlib

set_option autoImplicit false

namespace ClientAcl

/-! ### Addresses -/

/-- An address, as the number its octets spell. -/
inductive IpAddr
  | v4 (bits : BitVec 32)
  | v6 (bits : BitVec 128)
  deriving DecidableEq

/-- `Ipv6Addr::to_ipv4_mapped`: the address `::ffff:a.b.c.d`. -/
def toIpv4Mapped (bits : BitVec 128) : Option (BitVec 32) :=
  if bits >>> 32 = 0xffff#128 then some (bits.setWidth 32) else none

/-- `normalize_peer`. -/
def normalizePeer : IpAddr → IpAddr
  | .v4 bits => .v4 bits
  | .v6 bits =>
    match toIpv4Mapped bits with
    | some v4 => .v4 v4
    | none => .v6 bits

/-! ### Rules -/

/-- One compiled rule. -/
inductive Rule
  /-- `*`. -/
  | any
  /-- `loopback`: `127.0.0.0/8` and `::1`. -/
  | loopback
  /-- An IPv4 address or mask. -/
  | v4 (network mask : BitVec 32)
  /-- An IPv6 address or mask. -/
  | v6 (network mask : BitVec 128)
  deriving DecidableEq

/-- `matches`, for a normalised peer. -/
def Rule.accepts : Rule → IpAddr → Bool
  | .any, _ => true
  | .loopback, .v4 bits => bits >>> 24 == 127#32
  | .loopback, .v6 bits => bits == 1#128
  | .v4 network mask, .v4 bits => bits &&& mask == network &&& mask
  | .v4 _ _, .v6 _ => false
  | .v6 network mask, .v6 bits => bits &&& mask == network &&& mask
  | .v6 _ _, .v4 _ => false

/-! ### Lists -/

/-- A validated allow-list: the operator's text and its rules, of which there is at least one. -/
structure AllowedClients where
  source : String
  rules : List Rule
  nonempty : rules ≠ []
  deriving DecidableEq

/-- The default list, `*`. -/
def AllowedClients.everyone : AllowedClients := ⟨"*", [.any], nofun⟩

/-- `AllowedClients::allows`. -/
def AllowedClients.allows (l : AllowedClients) (ip : IpAddr) : Bool :=
  l.rules.any fun rule => rule.accepts (normalizePeer ip)

theorem allows_iff {l : AllowedClients} {ip : IpAddr} :
    l.allows ip = true ↔ ∃ rule ∈ l.rules, rule.accepts (normalizePeer ip) = true := by
  simp [AllowedClients.allows]

end ClientAcl
