import Alighieri.Lib.LastWins
import Alighieri.Lib.Table

/-!
# A table kept as a list of lines

Some lines are entries, with a key and a value; the others say nothing. A line for a key is put
in by replacing all the entries of the key, or at the end if there is none; a key is taken out
with all its entries.
-/

namespace Alighieri.LineStore
open LastWins List

variable {L K V : Type} [DecidableEq K]

def load (entry : L → Option (K × V)) (ls : List L) : Table K V :=
  (ls.filterMap entry).foldl (fun t e => t.insert e.1 e.2) ∅

theorem lookup_foldl_insert (es : List (K × V)) (t : Table K V) (k : K) :
    (es.foldl (fun t e => t.insert e.1 e.2) t).lookup k =
      ((last Prod.fst k es).map Prod.snd).or (t.lookup k) := by
  induction es generalizing t with
  | nil => rfl
  | cons e es ih =>
    rw [foldl_cons, ih, last]
    cases hlast : last Prod.fst k es with
    | some f => rfl
    | none =>
      by_cases hk : e.1 = k
      · subst hk
        rw [if_pos rfl]
        exact AList.lookup_insert t
      · rw [if_neg hk]
        exact AList.lookup_insert_ne fun he => hk he.symm

theorem lookup_load (entry : L → Option (K × V)) (ls : List L) (k : K) :
    (load entry ls).lookup k = (last Prod.fst k (ls.filterMap entry)).map Prod.snd := by
  rw [load, lookup_foldl_insert]
  exact Option.or_none

def isFor (entry : L → Option (K × V)) (k : K) (l : L) : Bool :=
  decide ((entry l).map Prod.fst = some k)

def upsert (entry : L → Option (K × V)) (k : K) (line : L) (ls : List L) : List L :=
  let replaced := ls.map fun l => if isFor entry k l then line else l
  if ls.any (isFor entry k) then replaced else replaced ++ [line]

def remove (entry : L → Option (K × V)) (k : K) (ls : List L) : List L :=
  ls.filter fun l => !isFor entry k l

section

variable {entry : L → Option (K × V)} {k : K} {line : L}

theorem isFor_iff {l : L} : isFor entry k l = true ↔ (entry l).map Prod.fst = some k :=
  decide_eq_true_iff

theorem filterMap_remove (ls : List L) :
    (remove entry k ls).filterMap entry =
      (ls.filterMap entry).filter fun e => decide (e.1 ≠ k) := by
  induction ls with
  | nil => rfl
  | cons l ls ih =>
    rw [remove, filter_cons]
    cases he : entry l with
    | none =>
      have hfor : isFor entry k l = false := by simp [isFor, he]
      rw [hfor, filterMap_cons_none he]
      simp only [Bool.not_false, if_true]
      rw [filterMap_cons_none he]
      exact ih
    | some e =>
      rw [filterMap_cons_some he, filter_cons]
      by_cases hk : e.1 = k
      · have hfor : isFor entry k l = true := by simp [isFor, he, hk]
        simp only [hfor, hk, Bool.not_true, ne_eq, not_true, decide_false, Bool.false_eq_true,
          if_false]
        exact ih
      · have hfor : isFor entry k l = false := by simp [isFor, he, hk]
        simp only [hfor, hk, Bool.not_false, ne_eq, not_false_iff, decide_true, if_true]
        rw [filterMap_cons_some he]
        exact congrArg _ ih

theorem remove_upsert (hline : isFor entry k line = true) (ls : List L) :
    remove entry k (upsert entry k line ls) = remove entry k ls := by
  have hmap : remove entry k (ls.map fun l => if isFor entry k l then line else l) =
      remove entry k ls := by
    induction ls with
    | nil => rfl
    | cons l ls ih =>
      unfold remove at ih ⊢
      rw [map_cons, filter_cons, filter_cons, ih]
      by_cases hl : isFor entry k l = true
      · simp only [hl, hline, if_true, Bool.not_true, Bool.false_eq_true, if_false]
      · simp only [hl, Bool.false_eq_true, if_false]
  unfold upsert
  simp only
  split
  · exact hmap
  · have hone : remove entry k [line] = [] := by simp [remove, hline]
    unfold remove at hmap hone ⊢
    rw [filter_append, hone, append_nil, hmap]

theorem lookup_remove_of_ne {j : K} (hj : j ≠ k) (ls : List L) :
    (load entry (remove entry k ls)).lookup j = (load entry ls).lookup j := by
  rw [lookup_load, lookup_load, filterMap_remove]
  congr 1
  exact last_filter (p := fun i => decide (i ≠ k)) (decide_eq_true hj) _

theorem lookup_remove_self (ls : List L) : (load entry (remove entry k ls)).lookup k = none := by
  rw [lookup_load, filterMap_remove]
  cases h : last Prod.fst k ((ls.filterMap entry).filter fun e => decide (e.1 ≠ k)) with
  | none => rfl
  | some e =>
    obtain ⟨hmem, hkey⟩ := last_some h
    exact absurd hkey (of_decide_eq_true (mem_filter.mp hmem).2)

theorem lookup_upsert_of_ne (hline : isFor entry k line = true) {j : K} (hj : j ≠ k)
    (ls : List L) : (load entry (upsert entry k line ls)).lookup j = (load entry ls).lookup j := by
  rw [← lookup_remove_of_ne hj, remove_upsert hline, lookup_remove_of_ne hj]

theorem upsert_cases {l : L} {ls : List L} (hl : l ∈ upsert entry k line ls) :
    l = line ∨ l ∈ ls ∧ isFor entry k l = false := by
  have hmap : l ∈ ls.map (fun m => if isFor entry k m then line else m) →
      l = line ∨ l ∈ ls ∧ isFor entry k l = false := by
    intro hmem
    obtain ⟨m, hm, hml⟩ := mem_map.mp hmem
    split at hml
    · exact .inl hml.symm
    · rename_i hne
      rw [hml] at hm hne
      exact .inr ⟨hm, Bool.eq_false_iff.mpr hne⟩
  unfold upsert at hl
  simp only at hl
  split at hl
  · exact hmap hl
  · rcases mem_append.mp hl with hl | hl
    · exact hmap hl
    · exact .inl (mem_singleton.mp hl)

theorem mem_upsert (ls : List L) : line ∈ upsert entry k line ls := by
  unfold upsert
  simp only
  split
  · rename_i hany
    obtain ⟨l, hl, hfor⟩ := any_eq_true.mp hany
    exact mem_map.mpr ⟨l, hl, if_pos hfor⟩
  · exact mem_append_right _ (mem_singleton_self line)

theorem lookup_upsert_self {v : V} (hline : entry line = some (k, v)) (ls : List L) :
    (load entry (upsert entry k line ls)).lookup k = some v := by
  rw [lookup_load]
  have hmem : (k, v) ∈ (upsert entry k line ls).filterMap entry :=
    mem_filterMap.mpr ⟨line, mem_upsert ls, hline⟩
  obtain ⟨e, he⟩ : ∃ e, last Prod.fst k ((upsert entry k line ls).filterMap entry) = some e :=
    exists_last hmem
  obtain ⟨hin, hkey⟩ := last_some he
  obtain ⟨l, hl, hentry⟩ := mem_filterMap.mp hin
  rcases upsert_cases hl with rfl | ⟨-, hother⟩
  · rw [hline] at hentry
    cases hentry
    rw [he]
    rfl
  · have hfor : isFor entry k l = true := by
      rw [isFor_iff, hentry, Option.map_some, hkey]
    rw [hfor] at hother
    cases hother

end

end Alighieri.LineStore
