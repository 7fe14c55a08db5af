import Alighieri.Lib.Table
import Mathlib.Data.List.MinMax

/-!
# Tables of bounded size

A table that is full makes room for a new key: it loses the entries that are no longer live, and
if this frees nothing one more, the victim.
-/

namespace Table
open List

variable {α β : Type}

def keep (p : β → Bool) (t : Table α β) : Table α β :=
  ⟨t.entries.filter fun e => p e.2,
    t.nodupKeys.sublist filter_sublist⟩

variable [DecidableEq α]

def makeRoom (max : ℕ) (live : β → Bool) (victim : Table α β → Option α) (t : Table α β) (a : α) :
    Table α β :=
  if max ≤ size t ∧ (t.lookup a).isNone then
    let swept := keep live t
    if max ≤ size swept then
      match victim swept with
      | some v => swept.erase v
      | none => swept
    else swept
  else t

def insertBounded (max : ℕ) (live : β → Bool) (victim : Table α β → Option α) (t : Table α β)
    (a : α) (b : β) : Table α β :=
  (makeRoom max live victim t a).insert a b

/- The keys with the least age; `pick` says which one where several tie. -/
def IsOldest {γ : Type} [LE γ] (age : β → γ) (t : Table α β) (a : α) : Prop :=
  ∃ b, t.lookup a = some b ∧ ∀ e ∈ t.entries, age b ≤ age e.2

instance {γ : Type} [LE γ] [DecidableLE γ] (age : β → γ) (t : Table α β) (a : α) :
    Decidable (IsOldest age t a) :=
  match h : t.lookup a with
  | none => .isFalse fun ⟨b, hb, _⟩ => by rw [h] at hb; cases hb
  | some b =>
    if hall : ∀ e ∈ t.entries, age b ≤ age e.2 then .isTrue ⟨b, h, hall⟩
    else .isFalse fun ⟨c, hc, hmin⟩ => by
      rw [h] at hc
      cases hc
      exact hall hmin

def oldest (age : β → ℕ) (pick : α) (t : Table α β) : Option α :=
  if IsOldest age t pick then some pick
  else (t.entries.argmin fun e => age e.2).map Sigma.fst

def Finds (victim : Table α β → Option α) : Prop :=
  ∀ t : Table α β, 0 < size t → ∃ v, victim t = some v ∧ (t.lookup v).isSome

theorem lookup_keep (p : β → Bool) (t : Table α β) (a : α) :
    (keep p t).lookup a = (t.lookup a).filter p := by
  rw [Option.ext_iff]
  intro b
  have hkeep : (keep p t).lookup a = some b ↔
      (⟨a, b⟩ : Sigma fun _ : α => β) ∈ t.entries.filter fun e => p e.2 := AList.mem_lookup_iff
  have ht : t.lookup a = some b ↔ (⟨a, b⟩ : Sigma fun _ : α => β) ∈ t.entries := AList.mem_lookup_iff
  rw [hkeep, mem_filter, ← ht, Option.filter_eq_some_iff]

theorem argmin_finds {γ : Type} [LinearOrder γ] (f : (Sigma fun _ : α => β) → γ) :
    Finds fun t : Table α β => (t.entries.argmin f).map Sigma.fst := by
  intro t hpos
  cases h : t.entries.argmin f with
  | none =>
    rw [argmin_eq_none] at h
    simp [size, AList.keys, keys, h] at hpos
  | some e =>
    have hmem := argmin_mem (Option.mem_def.mpr h)
    exact ⟨e.1, by simp only [h, Option.map_some], (mem_keys_iff t e.1).mp (mem_map_of_mem hmem)⟩

theorem oldest_finds (age : β → ℕ) (pick : α) : Finds (oldest age pick : Table α β → Option α) := by
  intro t hpos
  unfold oldest
  split
  · rename_i hpick
    obtain ⟨b, hb, -⟩ := hpick
    exact ⟨pick, rfl, by rw [hb]; rfl⟩
  · exact argmin_finds (fun e => age e.2) t hpos

section

variable {max : ℕ} {live : β → Bool} {victim : Table α β → Option α} {t : Table α β} {a : α}

theorem lookup_makeRoom {k : α} {b : β}
    (h : (makeRoom max live victim t a).lookup k = some b) : t.lookup k = some b := by
  have hkeep : ∀ {c}, (keep live t).lookup k = some c → t.lookup k = some c := by
    intro c hc
    rw [lookup_keep, Option.filter_eq_some_iff] at hc
    exact hc.1
  unfold makeRoom at h
  split at h
  · simp only at h
    split at h
    · split at h
      · exact hkeep (lookup_of_erase h)
      · exact hkeep h
    · exact hkeep h
  · exact h

theorem size_makeRoom (hmax : 0 < max) (hv : Finds victim) (hle : size t ≤ max) :
    size (makeRoom max live victim t a) < max ∨
      (((makeRoom max live victim t a).lookup a).isSome ∧
        size (makeRoom max live victim t a) ≤ max) := by
  have hswept : size (keep live t) ≤ size t := by
    unfold size AList.keys keys
    rw [length_map, length_map]
    exact length_filter_le ..
  unfold makeRoom
  split
  · simp only
    split
    · obtain ⟨v, hfind, hmem⟩ := hv (keep live t) (by omega)
      have herase : size ((keep live t).erase v) = size (keep live t) - 1 := by
        have hnone := size_set_none (keep live t) v
        rw [if_pos hmem] at hnone
        exact hnone
      rw [hfind]
      left
      show size ((keep live t).erase v) < max
      omega
    · left
      omega
  · rename_i hroom
    by_cases hsmall : size t < max
    · exact .inl hsmall
    · refine .inr ⟨?_, hle⟩
      by_contra hnone
      exact hroom ⟨by omega, by simpa using hnone⟩

theorem size_insertBounded (hmax : 0 < max) (hv : Finds victim) (hle : size t ≤ max) (b : β) :
    size (insertBounded max live victim t a b) ≤ max := by
  have hsize := size_set_some (makeRoom max live victim t a) a b
  have hgoal : size (insertBounded max live victim t a b) =
      size (set (makeRoom max live victim t a) a (some b)) := rfl
  rw [hgoal, hsize]
  rcases @size_makeRoom _ _ _ max live victim t a hmax hv hle with hlt | ⟨hsome, hle'⟩
  · split <;> omega
  · rw [if_pos hsome]
    exact hle'

theorem lookup_insertBounded {b c : β} {k : α}
    (h : (insertBounded max live victim t a b).lookup k = some c) :
    (k = a ∧ c = b) ∨ t.lookup k = some c := by
  unfold insertBounded at h
  by_cases hk : k = a
  · subst hk
    rw [AList.lookup_insert] at h
    cases h
    exact .inl ⟨rfl, rfl⟩
  · rw [AList.lookup_insert_ne hk] at h
    exact .inr (lookup_makeRoom h)

end

end Table
