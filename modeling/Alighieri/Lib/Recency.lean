import Alighieri.Lib.Table
import Mathlib.Data.List.Dedup
import Mathlib.Data.List.MinMax

/-!
# The most recent keys of a history

`recent n history` lists the last `n` distinct entries, the newest first. A table of time stamps
that loses its least stamp whenever it is full keeps exactly these keys.
-/

namespace Recency
open List Table

variable {α : Type} [DecidableEq α]

/- `dedup` keeps the last occurrence of each entry, so its reverse is by latest use. -/
def recent (n : ℕ) (history : List α) : List α := history.dedup.reverse.take n

theorem dedup_concat (history : List α) (a : α) :
    (history ++ [a]).dedup = history.dedup.erase a ++ [a] := by
  induction history with
  | nil => rfl
  | cons b l ih =>
    rw [cons_append]
    by_cases hl : b ∈ l
    · rw [dedup_cons_of_mem (mem_append_left _ hl), dedup_cons_of_mem hl, ih]
    · rw [dedup_cons_of_notMem hl]
      by_cases hb : b = a
      · subst hb
        have hd : b ∉ l.dedup := fun h => hl (mem_dedup.mp h)
        rw [dedup_cons_of_mem (mem_append_right _ (mem_singleton_self b)), ih,
          erase_cons_head, erase_of_not_mem hd]
      · have hnew : b ∉ l ++ [a] := by
          simp only [mem_append, mem_singleton]
          exact fun h => h.elim hl hb
        rw [dedup_cons_of_notMem hnew, ih, erase_cons_tail (by simpa using hb),
          cons_append]

theorem take_erase (l : List α) (a : α) (m : ℕ) :
    (l.erase a).take m = ((l.take (m + 1)).erase a).take m := by
  induction l generalizing m with
  | nil => rfl
  | cons b l ih =>
    rw [take_succ_cons]
    by_cases hb : b = a
    · subst hb
      rw [erase_cons_head, erase_cons_head, take_take, Nat.min_self]
    · have hne : ¬ (b == a) = true := by simpa using hb
      rw [erase_cons_tail hne, erase_cons_tail hne]
      cases m with
      | zero => rfl
      | succ m => rw [take_succ_cons, take_succ_cons, ih]

theorem length_recent_le (n : ℕ) (history : List α) : (recent n history).length ≤ n :=
  length_take_le _ _

theorem recent_concat {n : ℕ} (hn : 0 < n) (history : List α) (a : α) :
    recent n (history ++ [a]) = (a :: (recent n history).erase a).take n := by
  obtain ⟨m, rfl⟩ : ∃ m, n = m + 1 := ⟨n - 1, by omega⟩
  have hnodup := nodup_dedup history
  have hrev : (history.dedup.erase a).reverse = history.dedup.reverse.erase a := by
    rw [hnodup.erase_eq_filter, (nodup_reverse.mpr hnodup).erase_eq_filter,
      filter_reverse]
  unfold recent
  rw [dedup_concat, reverse_append, reverse_singleton, singleton_append, hrev,
    take_succ_cons, take_succ_cons, take_erase]

/-- Distinct entries at the end of a history, no more than `n`, are all recent. -/
theorem mem_recent_append {n : ℕ} {history tail : List α} (hnodup : tail.Nodup)
    (hlen : tail.length ≤ n) {a : α} (ha : a ∈ tail) : a ∈ recent n (history ++ tail) := by
  have hsuffix : tail <:+ (history ++ tail).dedup := by
    rw [dedup_append, hnodup.dedup]
    exact suffix_union_right _ _
  have hprefix : tail.reverse <+: recent n (history ++ tail) := by
    rw [recent, prefix_take_iff, reverse_prefix, length_reverse]
    exact ⟨hsuffix, hlen⟩
  exact hprefix.subset (mem_reverse.mpr ha)

/-- The keys of `t`, those with the greatest stamp first; no stamp is later than `now`. -/
structure Stamped (t : Table α ℕ) (now : ℕ) (keys : List α) : Prop where
  nodup : keys.Nodup
  mem : ∀ a, a ∈ keys ↔ (t.lookup a).isSome = true
  falling : keys.Pairwise fun a b => ∀ i j, t.lookup a = some i → t.lookup b = some j → j < i
  past : ∀ a i, t.lookup a = some i → i ≤ now

namespace Stamped

variable {t : Table α ℕ} {now : ℕ} {keys : List α}

theorem empty : Stamped (∅ : Table α ℕ) 0 [] where
  nodup := nodup_nil
  mem a := by simp
  falling := List.Pairwise.nil
  past a i h := by simp at h

theorem falling_set {a : α} {v : Option ℕ} (hnot : a ∉ keys)
    (h : keys.Pairwise fun b c => ∀ i j, t.lookup b = some i → t.lookup c = some j → j < i) :
    keys.Pairwise fun b c => ∀ i j, (set t a v).lookup b = some i →
      (set t a v).lookup c = some j → j < i := by
  refine h.imp_of_mem ?_
  intro b c hb hc hlt i j hi hj
  have hba : b ≠ a := fun e => hnot (e ▸ hb)
  have hca : c ≠ a := fun e => hnot (e ▸ hc)
  rw [lookup_set_of_ne hba] at hi
  rw [lookup_set_of_ne hca] at hj
  exact hlt i j hi hj

theorem size_eq (h : Stamped t now keys) : size t = keys.length := by
  have hperm : t.keys.Perm keys := by
    rw [perm_ext_iff_of_nodup (AList.keys_nodup t) h.nodup]
    intro a
    rw [mem_keys_iff, h.mem]
  exact hperm.length_eq

theorem touch (h : Stamped t now keys) (a : α) :
    Stamped (set t a (some (now + 1))) (now + 1) (a :: keys.erase a) := by
  have hnot : a ∉ keys.erase a := h.nodup.not_mem_erase
  refine ⟨nodup_cons.mpr ⟨hnot, h.nodup.erase a⟩, ?_, ?_, ?_⟩
  · intro b
    by_cases hb : b = a
    · subst hb
      simp
    · rw [mem_cons, mem_erase_of_ne hb, lookup_set_of_ne hb, h.mem]
      exact or_iff_right hb
  · rw [pairwise_cons]
    refine ⟨?_, ?_⟩
    · intro b hb i j hi hj
      have hne : b ≠ a := fun e => hnot (e ▸ hb)
      rw [lookup_set_self] at hi
      rw [lookup_set_of_ne hne] at hj
      have := h.past b j hj
      cases hi
      omega
    · exact falling_set hnot (h.falling.sublist erase_sublist)
  · intro b i hi
    rw [lookup_set] at hi
    split at hi
    · cases hi
      exact Nat.le_refl _
    · exact Nat.le_succ_of_le (h.past b i hi)

theorem argmin_last {b : α} (h : Stamped t now (keys ++ [b])) :
    (t.entries.argmin fun e => e.2).map Sigma.fst = some b := by
  obtain ⟨j, hj⟩ := Option.isSome_iff_exists.mp ((h.mem b).mp (by simp))
  have hbmem : (⟨b, j⟩ : Sigma fun _ : α => ℕ) ∈ t.entries := AList.mem_lookup_iff.mp hj
  cases harg : t.entries.argmin fun e => e.2 with
  | none =>
    rw [argmin_eq_none] at harg
    rw [harg] at hbmem
    cases hbmem
  | some e =>
    have hle : e.2 ≤ j :=
      le_of_mem_argmin (f := fun e : Sigma fun _ : α => ℕ => e.2) hbmem harg
    have hlook : t.lookup e.1 = some e.2 :=
      AList.mem_lookup_iff.mpr (argmin_mem (Option.mem_def.mpr harg))
    have hmem : e.1 ∈ keys ++ [b] := (h.mem e.1).mpr (by rw [hlook]; rfl)
    rcases mem_append.mp hmem with hk | hk
    · have hlt := (pairwise_append.mp h.falling).2.2 e.1 hk b (mem_singleton_self b)
        e.2 j hlook hj
      omega
    · rw [Option.map_some, mem_singleton.mp hk]

theorem evict {b : α} (h : Stamped t now (keys ++ [b])) :
    Stamped (set t b none) now keys := by
  have hnot : b ∉ keys := fun hb =>
    (nodup_append.mp h.nodup).2.2 b hb b (mem_singleton_self b) rfl
  refine ⟨(nodup_append.mp h.nodup).1, ?_, ?_, ?_⟩
  · intro a
    by_cases ha : a = b
    · subst ha
      simp [hnot]
    · rw [lookup_set_of_ne ha, ← h.mem a, mem_append, mem_singleton]
      exact (or_iff_left ha).symm
  · exact falling_set hnot (pairwise_append.mp h.falling).1
  · intro a i hi
    rw [lookup_set] at hi
    split at hi
    · cases hi
    · exact h.past a i hi

end Stamped

end Recency
