import Mathlib.Algebra.Ring.Nat
import Mathlib.Tactic.Basic

/-!
# Configuration values (config.rs:72-170, 205-220; socks5.rs:66-81)

The part of the parsed configuration that the access rules, the DNS policy and
the abuse controls read. Durations are counted in nanoseconds.
-/

namespace Alighieri

inductive AuthKind where
  | noAuth
  | username
  deriving DecidableEq, Repr

inductive Protocol where
  | tcp
  | udp
  deriving DecidableEq, Repr

inductive Command where
  | connect
  | bind
  | udpAssociate
  deriving DecidableEq, Repr

inductive Egress where
  | direct
  | rdp
  deriving DecidableEq, Repr

inductive DnsPreference where
  | system
  | ipv4
  | ipv6
  deriving DecidableEq, Repr

inductive DnsDenyCategory where
  | priv
  | linkLocal
  | loopback
  | multicast
  | unspecified
  | documentation
  | reserved
  deriving DecidableEq, Repr

/- The caching and timeout fields steer the resolver only. -/
structure DnsPolicy where
  preference : DnsPreference
  tryAll : Bool
  deny : List DnsDenyCategory
  deriving DecidableEq, Repr

def maxU64 : ℕ := 2 ^ 64 - 1

/- A rate as `parse_rate_limit` and `parse_byte_rate_limit` (config.rs:1237-1294)
let it through: a `u64` limit and a window, neither of them zero. -/
structure RateLimit where
  limit : ℕ
  window : ℕ
  limit_pos : 0 < limit
  limit_le : limit ≤ maxU64
  window_pos : 0 < window
  deriving DecidableEq, Repr

structure RateLimits where
  connectionRate : Option RateLimit
  authFailureRate : Option RateLimit
  concurrentConnections : Option ℕ
  byteRate : Option RateLimit
  deriving DecidableEq, Repr

end Alighieri
