import Mathlib.Algebra.Ring.Nat
import Mathlib.Data.List.AList
import Mathlib.Tactic.Basic

/-!
# Finite tables

A table is an association list without repeated keys. `set` writes or removes one
entry, so that a lookup after it is a plain case distinction on the key.
-/

abbrev Table (α β : Type) := AList (fun _ : α => β)

namespace Table
open List

variable {α β : Type} {t : Table α β}

def keysWhere (p : β → Bool) (t : Table α β) : List α :=
  (t.entries.filter fun e => p e.2).map Sigma.fst

def count (p : β → Bool) (t : Table α β) : ℕ := (keysWhere p t).length

theorem count_eq (p : β → Bool) (t : Table α β) : count p t = t.entries.countP fun e => p e.2 := by
  rw [count, keysWhere, length_map, countP_eq_length_filter]

def sum (f : β → ℕ) (t : Table α β) : ℕ := (t.entries.map fun e => f e.2).sum

theorem keysWhere_nodup (p : β → Bool) (t : Table α β) : (keysWhere p t).Nodup :=
  t.nodupKeys.sublist filter_sublist

def one (p : β → Bool) (v : Option β) : ℕ := if v.any p then 1 else 0

variable [DecidableEq α]

def set (t : Table α β) (a : α) : Option β → Table α β
  | some b => t.insert a b
  | none => t.erase a

def size (t : Table α β) : ℕ := t.keys.length

@[simp] theorem lookup_set_self (t : Table α β) (a : α) (v : Option β) :
    (set t a v).lookup a = v := by
  cases v with
  | none => exact AList.lookup_erase a t
  | some b => exact AList.lookup_insert t

theorem lookup_set_of_ne {a b : α} {v : Option β} (h : b ≠ a) :
    (set t a v).lookup b = t.lookup b := by
  cases v with
  | none => exact AList.lookup_erase_ne h
  | some c => exact AList.lookup_insert_ne h

theorem lookup_set (t : Table α β) (a b : α) (v : Option β) :
    (set t a v).lookup b = if b = a then v else t.lookup b := by
  by_cases h : b = a
  · subst h
    simp
  · simp [h, lookup_set_of_ne h]

theorem mem_keys_iff (t : Table α β) (a : α) : a ∈ t.keys ↔ (t.lookup a).isSome = true := by
  rw [AList.lookup_isSome, AList.mem_keys]

theorem size_set_some (t : Table α β) (a : α) (b : β) :
    size (set t a (some b)) = if (t.lookup a).isSome then size t else size t + 1 := by
  have hk : (set t a (some b)).keys = a :: t.keys.erase a := AList.keys_insert t
  unfold size
  rw [hk, length_cons]
  by_cases h : (t.lookup a).isSome = true
  · have hmem := (mem_keys_iff t a).mpr h
    have hpos : 0 < t.keys.length := length_pos_of_mem hmem
    rw [if_pos h, length_erase_of_mem hmem]
    omega
  · have hmem : a ∉ t.keys := fun hm => h ((mem_keys_iff t a).mp hm)
    rw [if_neg h, erase_of_not_mem hmem]

theorem size_set_none (t : Table α β) (a : α) :
    size (set t a none) = if (t.lookup a).isSome then size t - 1 else size t := by
  have hk : (set t a none).keys = t.keys.erase a := AList.keys_erase a t
  unfold size
  rw [hk]
  by_cases h : (t.lookup a).isSome = true
  · rw [if_pos h, length_erase_of_mem ((mem_keys_iff t a).mpr h)]
  · have hmem : a ∉ t.keys := fun hm => h ((mem_keys_iff t a).mp hm)
    rw [if_neg h, erase_of_not_mem hmem]

theorem lookup_of_erase {a k : α} {b : β} (h : (t.erase a).lookup k = some b) :
    t.lookup k = some b := by
  by_cases hk : k = a
  · subst hk
    rw [AList.lookup_erase] at h
    cases h
  · rwa [AList.lookup_erase_ne hk] at h

theorem size_erase_le (t : Table α β) (a : α) : size (t.erase a) ≤ size t := by
  show size (set t a none) ≤ size t
  rw [size_set_none]
  split <;> omega

theorem size_set_lookup (t : Table α β) (a : α) : size (set t a (t.lookup a)) = size t := by
  cases h : t.lookup a with
  | none => simp [size_set_none, h]
  | some b => simp [size_set_some, h]

theorem lookup_set_lookup (t : Table α β) (a b : α) :
    (set t a (t.lookup a)).lookup b = t.lookup b := by
  by_cases h : b = a
  · subst h
    simp
  · exact lookup_set_of_ne h

theorem mem_keysWhere {p : β → Bool} {a : α} {b : β} (h : t.lookup a = some b) (hp : p b = true) :
    a ∈ keysWhere p t := by
  have hmem : (⟨a, b⟩ : Sigma fun _ : α => β) ∈ t.entries := AList.mem_lookup_iff.mp h
  exact mem_map.mpr ⟨_, mem_filter.mpr ⟨hmem, hp⟩, rfl⟩

theorem countP_kerase (p : β → Bool) (a : α) (l : List (Sigma fun _ : α => β)) :
    (l.kerase a).countP (fun e => p e.2) + one p (l.dlookup a) = l.countP fun e => p e.2 := by
  induction l with
  | nil => rfl
  | cons e l ih =>
    obtain ⟨b, v⟩ := e
    by_cases h : a = b
    · subst h
      have hhead : List.kerase a (⟨a, v⟩ :: l) = l := kerase_cons_eq rfl
      rw [hhead, dlookup_cons_eq, countP_cons]
      rfl
    · rw [kerase_cons_ne h, dlookup_cons_ne l ⟨b, v⟩ h, countP_cons,
        countP_cons, ← ih]
      omega

theorem count_set (p : β → Bool) (t : Table α β) (a : α) (v : Option β) :
    count p (set t a v) + one p (t.lookup a) = count p t + one p v := by
  have herase := countP_kerase p a t.entries
  rw [count_eq, count_eq]
  cases v with
  | none => exact herase
  | some b =>
    show (⟨a, b⟩ :: t.entries.kerase a : List (Sigma fun _ : α => β)).countP _ +
      one p (t.entries.dlookup a) = _
    rw [countP_cons, ← herase]
    show _ + one p (some b) + _ = _
    omega

theorem lookup_of_mem_keysWhere {p : β → Bool} {a : α} (h : a ∈ keysWhere p t) :
    ∃ b, t.lookup a = some b ∧ p b = true := by
  obtain ⟨e, he, rfl⟩ := mem_map.mp h
  obtain ⟨hmem, hp⟩ := mem_filter.mp he
  exact ⟨e.2, AList.mem_lookup_iff.mpr hmem, hp⟩

theorem sum_le {f : β → ℕ} {n : ℕ} {l : List α} (hn : ∀ a b, t.lookup a = some b → f b ≤ n)
    (hl : ∀ a b, t.lookup a = some b → 0 < f b → a ∈ l) : sum f t ≤ l.length * n := by
  have hcount : sum f t ≤ count (fun b => decide (0 < f b)) t * n := by
    rw [count_eq]
    have hall : ∀ e ∈ t.entries, f e.2 ≤ n := fun e he => hn e.1 e.2 (AList.mem_lookup_iff.mpr he)
    unfold sum
    generalize t.entries = es at hall ⊢
    induction es with
    | nil => exact Nat.zero_le _
    | cons e es ih =>
      have he := hall e (mem_cons_self)
      have hes := ih fun e' he' => hall e' (mem_cons_of_mem _ he')
      rw [map_cons, sum_cons, countP_cons, Nat.add_mul]
      by_cases hpos : 0 < f e.2
      · simp only [hpos, decide_true, if_true, Nat.one_mul]
        omega
      · simp only [hpos, decide_false, Bool.false_eq_true, if_false, Nat.zero_mul]
        omega
  have hsub : keysWhere (fun b => decide (0 < f b)) t ⊆ l := by
    intro a ha
    obtain ⟨b, hb, hp⟩ := lookup_of_mem_keysWhere ha
    exact hl a b hb (by simpa using hp)
  have hle := (subperm_of_subset (keysWhere_nodup _ t) hsub).length_le
  exact Nat.le_trans hcount (Nat.mul_le_mul_right n hle)

end Table
