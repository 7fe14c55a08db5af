import Alighieri.Socks5
import Alighieri.Lib.BoundedTable
import Mathlib.Data.Char
import Mathlib.Data.List.Lex
import Mathlib.Data.Prod.Lex

/-!
# The caches of the resolver (dns.rs:14-36, 303-378, 447-490)

The positive cache holds answers with the time they were stored at; how long they live is
judged when they are asked for. The negative cache holds the names that timed out. Times and
durations are in nanoseconds.
-/

namespace Alighieri.Dns
open Net Socks5 Table

def maxDnsCacheEntries : ℕ := 4096
def negativeCacheTtl : ℕ := 2 * 10 ^ 9
def maxNegativeCacheEntries : ℕ := 1024

structure DnsCacheKey where
  host : Text
  port : ℕ
  deriving DecidableEq, Repr

def DnsCacheKey.new (host : Text) (port : ℕ) : DnsCacheKey := ⟨host.map Char.toLower, port⟩

structure DnsCacheEntry where
  addrs : List SocketAddr
  insertedAt : ℕ
  deriving DecidableEq, Repr

abbrev Cache := Table DnsCacheKey DnsCacheEntry
abbrev Negative := Table DnsCacheKey ℕ

variable {now : ℕ} {key : DnsCacheKey} {cache : Cache} {negative : Negative}

def since (now earlier : ℕ) : ℕ := now - earlier

def cacheEntryLive (entry : DnsCacheEntry) (now ttl : ℕ) : Bool :=
  decide (since now entry.insertedAt < ttl)

/- Ties are broken by the port and the host; the order of the characters is that of the bytes. -/
def oldestCacheKey (cache : Cache) : Option DnsCacheKey :=
  (cache.entries.argmin fun e => toLex (e.2.insertedAt, toLex (e.1.port, e.1.host))).map Sigma.fst

def cached (cache : Cache) (key : DnsCacheKey) (now ttl : ℕ) : Option (List SocketAddr) × Cache :=
  match cache.lookup key with
  | none => (none, cache)
  | some entry =>
    if cacheEntryLive entry now ttl then (some entry.addrs, cache) else (none, cache.erase key)

def store (cache : Cache) (key : DnsCacheKey) (addrs : List SocketAddr) (now ttl : ℕ) : Cache :=
  insertBounded maxDnsCacheEntries (fun entry => cacheEntryLive entry now ttl) oldestCacheKey
    cache key ⟨addrs, now⟩

def negativelyCached (negative : Negative) (key : DnsCacheKey) (now : ℕ) : Bool × Negative :=
  match negative.lookup key with
  | none => (false, negative)
  | some failedAt =>
    if since now failedAt < negativeCacheTtl then (true, negative) else (false, negative.erase key)

/- `pick` stands for the order in which the hash map is searched for the oldest entry. -/
def storeNegative (negative : Negative) (key : DnsCacheKey) (now : ℕ) (pick : DnsCacheKey) :
    Negative :=
  insertBounded maxNegativeCacheEntries
    (fun failedAt => decide (since now failedAt < negativeCacheTtl))
    (oldest (fun failedAt => failedAt) pick) negative key now

/-! ### The positive cache -/

theorem cached_hit {ttl : ℕ} {addrs : List SocketAddr}
    (h : (cached cache key now ttl).1 = some addrs) :
    ∃ entry, cache.lookup key = some entry ∧ entry.addrs = addrs ∧ now < entry.insertedAt + ttl := by
  unfold cached at h
  split at h
  · cases h
  rename_i entry hentry
  split at h
  · rename_i hlive
    cases h
    have hlt : since now entry.insertedAt < ttl := of_decide_eq_true hlive
    unfold since at hlt
    exact ⟨entry, hentry, rfl, by omega⟩
  · cases h

theorem cached_sub {k : DnsCacheKey} {ttl : ℕ} {entry : DnsCacheEntry}
    (h : (cached cache key now ttl).2.lookup k = some entry) : cache.lookup k = some entry := by
  unfold cached at h
  split at h
  · exact h
  · split at h
    · exact h
    · exact lookup_of_erase h

theorem cached_size (cache : Cache) (key : DnsCacheKey) (now ttl : ℕ) :
    size (cached cache key now ttl).2 ≤ size cache := by
  unfold cached
  split
  · exact le_refl _
  · split
    · exact le_refl _
    · exact size_erase_le cache key

theorem store_size (h : size cache ≤ maxDnsCacheEntries) (key : DnsCacheKey)
    (addrs : List SocketAddr) (now ttl : ℕ) :
    size (store cache key addrs now ttl) ≤ maxDnsCacheEntries :=
  size_insertBounded (by decide) (argmin_finds _) h _

/-! ### The negative cache -/

theorem negativelyCached_hit (h : (negativelyCached negative key now).1 = true) :
    ∃ failedAt, negative.lookup key = some failedAt ∧ now < failedAt + negativeCacheTtl := by
  unfold negativelyCached at h
  split at h
  · cases h
  rename_i failedAt hfailed
  split at h
  · rename_i hlive
    simp only [since] at hlive
    exact ⟨failedAt, hfailed, by omega⟩
  · cases h

theorem negativelyCached_sub {k : DnsCacheKey} {at' : ℕ}
    (h : (negativelyCached negative key now).2.lookup k = some at') :
    negative.lookup k = some at' := by
  unfold negativelyCached at h
  split at h
  · exact h
  · split at h
    · exact h
    · exact lookup_of_erase h

theorem negativelyCached_size (negative : Negative) (key : DnsCacheKey) (now : ℕ) :
    size (negativelyCached negative key now).2 ≤ size negative := by
  unfold negativelyCached
  split
  · exact le_refl _
  · split
    · exact le_refl _
    · exact size_erase_le negative key

theorem storeNegative_size (h : size negative ≤ maxNegativeCacheEntries) (key : DnsCacheKey)
    (now : ℕ) (pick : DnsCacheKey) :
    size (storeNegative negative key now pick) ≤ maxNegativeCacheEntries :=
  size_insertBounded (by decide) (oldest_finds _ pick) h _

end Alighieri.Dns
