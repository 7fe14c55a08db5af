import Alighieri.Lib.Recency
import Alighieri.Relay.Udp

/-!
# What the set of contacted remotes remembers (relay.rs:790-838)

`record` stamps the key of the destination with the next tick and, where 256 keys are already
there, first drops the one with the least tick. The ticks come round after 2^64 datagrams of one
association; until then the least tick is the oldest.
-/

namespace Alighieri.Relay.Udp
open Net List

variable {c : ContactedRemotes}

namespace ContactedRemotes

open Recency

@[simp] theorem record_matchPort (c : ContactedRemotes) (addr : SocketAddr) :
    (c.record addr).matchPort = c.matchPort := rfl

theorem remoteKey_true : remoteKey true = id := rfl

theorem key_strict (h : c.matchPort = true) (addr : SocketAddr) : c.key addr = addr := by
  rw [key, h]
  rfl

theorem record_lookup (h : c.matchPort = true) (addr : SocketAddr) :
    (c.record addr).seen.lookup addr = some (c.record addr).ticks := by
  rw [record, key_strict h]
  exact Table.lookup_set_self _ _ _

theorem oldest_least {a : SocketAddr} {t : ℕ} (h : c.seen.lookup a = some t) :
    ∃ k i, c.oldest = some k ∧ c.seen.lookup k = some i ∧ i ≤ t := by
  have hmem : (⟨a, t⟩ : Sigma fun _ : SocketAddr => ℕ) ∈ c.seen.entries :=
    AList.mem_lookup_iff.mp h
  cases harg : c.seen.entries.argmin fun e => e.2 with
  | none =>
    rw [argmin_eq_none] at harg
    rw [harg] at hmem
    cases hmem
  | some e =>
    refine ⟨e.1, e.2, by rw [oldest, harg]; rfl, ?_, ?_⟩
    · exact AList.mem_lookup_iff.mpr (argmin_mem (Option.mem_def.mpr harg))
    · exact le_of_mem_argmin (f := fun e : Sigma fun _ : SocketAddr => ℕ => e.2) hmem harg

theorem size_record_le (h : c.seen.size ≤ maxContactedRemotes) (addr : SocketAddr) :
    (c.record addr).seen.size ≤ maxContactedRemotes := by
  show (Table.set (c.makeRoom (c.key addr)) (c.key addr) (some _)).size ≤ _
  rw [Table.size_set_some]
  unfold makeRoom
  split
  · rename_i hfull
    have hpos : 0 < c.seen.size := Nat.lt_of_lt_of_le (by decide) hfull.1
    obtain ⟨a, ha⟩ := exists_mem_of_length_pos hpos
    obtain ⟨t, ht⟩ := Option.isSome_iff_exists.mp ((Table.mem_keys_iff _ _).mp ha)
    obtain ⟨k, i, hold, hk, -⟩ := oldest_least ht
    simp only [hold, Table.size_set_none, hk, Option.isSome_some, if_true]
    split <;> omega
  · rename_i hroom
    split
    · exact h
    · rename_i hnew
      exact Nat.lt_of_not_le fun hge => hroom ⟨hge, Option.not_isSome_iff_eq_none.mp hnew⟩

theorem record_stamped {keys : List SocketAddr} (h : Stamped c.seen c.ticks keys)
    (hlen : keys.length ≤ maxContactedRemotes) (hticks : c.ticks + 1 < 2 ^ 64) (addr : SocketAddr) :
    Stamped (c.record addr).seen (c.record addr).ticks
      ((c.key addr :: keys.erase (c.key addr)).take maxContactedRemotes) := by
  rw [record, Nat.mod_eq_of_lt hticks]
  generalize c.key addr = k
  unfold makeRoom
  split
  · rename_i hfull
    have hnot : k ∉ keys := by
      intro hk
      have := (h.mem k).mp hk
      rw [hfull.2] at this
      cases this
    have hsize := h.size_eq
    rcases eq_nil_or_concat keys with rfl | ⟨l, b, rfl⟩
    · rw [hsize] at hfull
      exact absurd hfull.1 (by decide)
    · rw [concat_eq_append] at *
      have hold : c.oldest = some b := h.argmin_last
      have hnl : k ∉ l := fun hk => hnot (mem_append_left _ hk)
      have hl : l.length + 1 = maxContactedRemotes := by
        have h1 := hfull.1
        rw [hsize, length_append, length_singleton] at h1
        rw [length_append, length_singleton] at hlen
        omega
      have htake : (k :: (l ++ [b])).take maxContactedRemotes = k :: l := by
        rw [← hl, take_succ_cons, take_left]
      have htouch := h.evict.touch k
      rw [erase_of_not_mem hnl] at htouch
      rw [hold, erase_of_not_mem hnot, htake]
      exact htouch
  · rename_i hroom
    have hshort : (k :: keys.erase k).length ≤ maxContactedRemotes := by
      rw [length_cons]
      by_cases hk : k ∈ keys
      · have := length_pos_of_mem hk
        rw [length_erase_of_mem hk]
        omega
      · have hnone : c.seen.lookup k = none := by
          rw [← Option.not_isSome_iff_eq_none, ← h.mem k]
          exact hk
        have hfew : ¬ maxContactedRemotes ≤ c.seen.size := fun hge => hroom ⟨hge, hnone⟩
        rw [h.size_eq] at hfew
        rw [erase_of_not_mem hk]
        omega
    rw [take_of_length_le hshort]
    exact h.touch k

def recordAll (matchPort : Bool) (calls : List SocketAddr) : ContactedRemotes :=
  calls.foldl record (new matchPort)

section
variable (matchPort : Bool) (calls : List SocketAddr)

theorem recordAll_concat (addr : SocketAddr) :
    recordAll matchPort (calls ++ [addr]) = (recordAll matchPort calls).record addr := by
  rw [recordAll, foldl_append]
  rfl

theorem recordAll_matchPort :
    (recordAll matchPort calls).matchPort = matchPort := by
  induction calls using List.reverseRecOn with
  | nil => rfl
  | append_singleton calls addr ih => rw [recordAll_concat, record_matchPort, ih]

theorem recordAll_ticks :
    (recordAll matchPort calls).ticks = calls.length % 2 ^ 64 := by
  induction calls using List.reverseRecOn with
  | nil => rfl
  | append_singleton calls addr ih =>
    rw [recordAll_concat, record, ih, length_append, length_singleton, Nat.mod_add_mod]

theorem recordAll_size :
    (recordAll matchPort calls).seen.size ≤ maxContactedRemotes := by
  induction calls using List.reverseRecOn with
  | nil => exact Nat.zero_le _
  | append_singleton calls addr ih =>
    rw [recordAll_concat]
    exact size_record_le ih addr

theorem recordAll_stamped (hcalls : calls.length < 2 ^ 64) :
    Stamped (recordAll matchPort calls).seen (recordAll matchPort calls).ticks
      (recent maxContactedRemotes (calls.map (remoteKey matchPort))) := by
  induction calls using List.reverseRecOn with
  | nil => exact Stamped.empty
  | append_singleton calls addr ih =>
    rw [length_append, length_singleton] at hcalls
    have hticks : (recordAll matchPort calls).ticks + 1 < 2 ^ 64 := by
      rw [recordAll_ticks, Nat.mod_eq_of_lt (by omega)]
      exact hcalls
    have hstep := record_stamped (ih (by omega)) (length_recent_le _ _) hticks addr
    have hkey : (recordAll matchPort calls).key addr = remoteKey matchPort addr := by
      rw [key, recordAll_matchPort]
    rw [hkey] at hstep
    rw [recordAll_concat, map_append, map_singleton, recent_concat (by decide)]
    exact hstep

end

/-- After fewer than 2^64 `record` calls, `contains` holds of an address exactly if its key is
among the 256 most recently recorded distinct keys. The map never holds more than 256. -/
theorem contains_iff_recent (matchPort : Bool) (calls : List SocketAddr) :
    (calls.length < 2 ^ 64 → ∀ a, (recordAll matchPort calls).contains a = true ↔
      remoteKey matchPort a ∈
        recent maxContactedRemotes (calls.map (remoteKey matchPort))) ∧
    (recordAll matchPort calls).seen.size ≤ maxContactedRemotes := by
  refine ⟨?_, recordAll_size matchPort calls⟩
  intro hcalls a
  have h := recordAll_stamped matchPort calls hcalls
  rw [contains, key, recordAll_matchPort, ← h.mem]

theorem contains_iff_recent_two :
    (recordAll false [.v4 1 80, .v4 2 53]).contains (.v4 1 81) = true ∧
      (recordAll true [.v4 1 80, .v4 2 53]).contains (.v4 1 81) = false := by
  refine ⟨?_, ?_⟩
  · exact ((contains_iff_recent false [.v4 1 80, .v4 2 53]).1 (by decide) _).mpr (by decide)
  · rw [Bool.eq_false_iff, ne_eq,
      (contains_iff_recent true [.v4 1 80, .v4 2 53]).1 (by decide)]
    decide

/-! ### When the ticks come round -/

def remote (i : ℕ) : SocketAddr := .v4 0 i

theorem remote_inj {i j : ℕ} : remote i = remote j ↔ i = j := by
  simp [remote]

/-- The ticks have come round and `k` remotes, numbered from one on, have been recorded since;
before them there was one. -/
structure Wrapped (k : ℕ) (c : ContactedRemotes) : Prop where
  ports : c.matchPort = true
  next : (c.ticks + 1) % 2 ^ 64 = k
  recorded : ∀ i, c.seen.lookup (remote (i + 1)) = if i < k then some i else none
  least : ∀ a, c.seen.lookup a = some 0 → a = remote 1
  size : c.seen.size = k + 1

theorem Wrapped.start {n : ℕ} (hn : n + 2 = 2 ^ 64) :
    Wrapped 0 (recordAll true (replicate (n + 1) (remote 0))) := by
  have hlen : (replicate (n + 1) (remote 0)).length < 2 ^ 64 := by
    rw [length_replicate]
    omega
  have hstamped := recordAll_stamped true _ hlen
  have hticks := recordAll_ticks true (replicate (n + 1) (remote 0))
  rw [length_replicate, Nat.mod_eq_of_lt (by omega)] at hticks
  have hkeys : recent maxContactedRemotes ((replicate (n + 1) (remote 0)).map (remoteKey true)) =
      [remote 0] := by
    rw [map_replicate, recent, replicate_dedup (Nat.succ_ne_zero n)]
    rfl
  rw [hkeys] at hstamped
  have hnone : ∀ a, a ≠ remote 0 → (recordAll true (replicate (n + 1) (remote 0))).seen.lookup a =
      none := by
    intro a ha
    rw [← Option.not_isSome_iff_eq_none, ← hstamped.mem a, mem_singleton]
    exact ha
  refine ⟨recordAll_matchPort _ _, ?_, ?_, ?_, hstamped.size_eq⟩
  · rw [hticks, hn, Nat.mod_self]
  · intro i
    exact hnone _ (fun h => absurd (remote_inj.mp h) (Nat.succ_ne_zero i))
  · intro a ha
    have hself : (recordAll true (replicate (n + 1) (remote 0))).seen.lookup (remote 0) =
        some (recordAll true (replicate (n + 1) (remote 0))).ticks := by
      rw [replicate_succ', recordAll_concat]
      exact record_lookup (recordAll_matchPort _ _) _
    by_cases heq : a = remote 0
    · rw [heq, hself, hticks] at ha
      cases ha
    · rw [hnone a heq] at ha
      cases ha

theorem Wrapped.record {k : ℕ} (h : Wrapped k c) (hk : k < 255) :
    Wrapped (k + 1) (c.record (remote (k + 1))) := by
  have hroom : c.makeRoom (remote (k + 1)) = c.seen := by
    rw [makeRoom, if_neg]
    rw [h.size, maxContactedRemotes]
    omega
  have hnew : c.seen.lookup (remote (k + 1)) = none := by
    rw [h.recorded, if_neg (Nat.lt_irrefl k)]
  have hrecord : c.record (remote (k + 1)) =
      { c with seen := c.seen.set (remote (k + 1)) (some k), ticks := k } := by
    rw [ContactedRemotes.record, key_strict h.ports, hroom, h.next]
  rw [hrecord]
  refine ⟨h.ports, ?_, ?_, ?_, ?_⟩
  · show (k + 1) % 2 ^ 64 = k + 1
    omega
  · intro i
    rw [Table.lookup_set, h.recorded]
    simp only [remote_inj, Nat.add_right_cancel_iff]
    grind
  · intro a ha
    rw [Table.lookup_set] at ha
    split at ha
    · rename_i heq
      cases ha
      exact heq
    · exact h.least a ha
  · show Table.size (Table.set c.seen (remote (k + 1)) (some k)) = k + 1 + 1
    rw [Table.size_set_some, hnew, h.size]
    rfl

/-- With the map full, the next remote takes the place of the first one that was recorded after
the ticks came round. -/
theorem Wrapped.evicts (h : Wrapped 255 c) :
    (c.record (remote 256)).contains (remote 1) = false := by
  have hfirst : c.seen.lookup (remote 1) = some 0 := by
    rw [h.recorded 0]
    rfl
  obtain ⟨k, i, holdest, hlook, hle⟩ := oldest_least hfirst
  rw [Nat.le_zero.mp hle] at hlook
  rw [h.least k hlook] at holdest
  have hfull : maxContactedRemotes ≤ c.seen.size ∧ c.seen.lookup (remote 256) = none :=
    ⟨Nat.le_of_eq h.size.symm, h.recorded 255⟩
  have hne : remote 1 ≠ remote 256 := fun heq => absurd (remote_inj.mp heq) (by decide)
  have hports : (c.record (remote 256)).matchPort = true := h.ports
  rw [contains, key_strict hports, ContactedRemotes.record, key_strict h.ports, makeRoom,
    if_pos hfull, holdest, Table.lookup_set_of_ne hne, Table.lookup_set_self]
  rfl

/-- One remote up to the last tick before they come round, then 256 others: the first of these is
among the 256 most recent, but its tick is zero and the last of them takes its place. -/
theorem recent_remote_forgotten :
    ∃ calls : List SocketAddr, calls.length = 2 ^ 64 - 1 + 256 ∧
      remote 1 ∈ recent maxContactedRemotes (calls.map (remoteKey true)) ∧
      (recordAll true calls).contains (remote 1) = false := by
  obtain ⟨n, hn⟩ : ∃ n, n + 2 = 2 ^ 64 := ⟨2 ^ 64 - 2, by omega⟩
  -- one record after the other from the wrapped state
  have hrun : ∀ k ≤ 255, Wrapped k (recordAll true
      (replicate (n + 1) (remote 0) ++ (range k).map fun i => remote (i + 1))) := by
    intro k hk
    induction k with
    | zero =>
      rw [range_zero, map_nil, append_nil]
      exact Wrapped.start hn
    | succ k ih =>
      have hstep := (ih (by omega)).record (by omega)
      rw [← recordAll_concat, append_assoc] at hstep
      rw [range_succ, map_append, map_singleton]
      exact hstep
  have hlast := (hrun 255 (Nat.le_refl _)).evicts
  rw [← recordAll_concat, append_assoc] at hlast
  have htail : (range 256).map (fun i => remote (i + 1)) =
      (range 255).map (fun i => remote (i + 1)) ++ [remote 256] := by
    rw [range_succ, map_append, map_singleton]
  rw [← htail] at hlast
  refine ⟨_, ?_, ?_, hlast⟩
  · rw [length_append, length_replicate, length_map, length_range]
    omega
  · rw [remoteKey_true, map_id]
    apply mem_recent_append
    · exact nodup_range.map fun i j hij => Nat.succ_inj.mp (remote_inj.mp hij)
    · rw [length_map, length_range]
      exact Nat.le_refl _
    · exact mem_map.mpr ⟨0, mem_range.mpr (by decide), rfl⟩

end ContactedRemotes

end Alighieri.Relay.Udp
