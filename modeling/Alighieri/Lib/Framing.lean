import Mathlib.Tactic.Basic
import Mathlib.Data.List.Basic

/-!
# Framed streams

A framing finds the next item at the front of a stream, or says that it is not
whole yet, or that it is malformed. What it says about an item or an error does
not change when more of the stream arrives, so a stream may be read in pieces:
`parse_append` takes a parse up again where it stopped.
-/

structure Framing (ε α β : Type) where
  next : List β → Except ε (Option (α × ℕ))
  progress : ∀ {s a n}, next s = .ok (some (a, n)) → 0 < n ∧ n ≤ s.length
  item_append : ∀ {s x} (t), next s = .ok (some x) → next (s ++ t) = .ok (some x)
  error_append : ∀ {s e} (t), next s = .error e → next (s ++ t) = .error e

namespace Framing

variable {ε α β : Type} {s : List β}

/- The whole items of a stream, the error that stopped the parse, if any, and what
was not consumed. -/
structure Parsed (ε α β : Type) where
  items : List α
  error : Option ε
  rest : List β

def parse (F : Framing ε α β) (s : List β) : Parsed ε α β :=
  match _h : F.next s with
  | .error e => ⟨[], some e, s⟩
  | .ok none => ⟨[], none, s⟩
  | .ok (some (a, n)) =>
    let later := F.parse (s.drop n)
    ⟨a :: later.items, later.error, later.rest⟩
termination_by s.length
decreasing_by
  have hn := F.progress _h
  rw [List.length_drop]
  omega

variable (F : Framing ε α β)

theorem parse_of_error {e : ε} (h : F.next s = .error e) : F.parse s = ⟨[], some e, s⟩ := by
  rw [parse]
  split
  · rename_i h'
    rw [h] at h'
    cases h'
    rfl
  · rename_i h'
    rw [h] at h'
    cases h'
  · rename_i h'
    rw [h] at h'
    cases h'

theorem parse_of_idle (h : F.next s = .ok none) : F.parse s = ⟨[], none, s⟩ := by
  rw [parse]
  split
  · rename_i h'
    rw [h] at h'
    cases h'
  · rfl
  · rename_i h'
    rw [h] at h'
    cases h'

theorem parse_of_item {a : α} {n : ℕ} (h : F.next s = .ok (some (a, n))) :
    F.parse s = ⟨a :: (F.parse (s.drop n)).items, (F.parse (s.drop n)).error,
      (F.parse (s.drop n)).rest⟩ := by
  rw [parse]
  split
  · rename_i h'
    rw [h] at h'
    cases h'
  · rename_i h'
    rw [h] at h'
    cases h'
  · rename_i h'
    rw [h] at h'
    cases h'
    rfl

theorem parse_induction {motive : List β → Prop}
    (error : ∀ s e, F.next s = .error e → motive s)
    (idle : ∀ s, F.next s = .ok none → motive s)
    (item : ∀ s a n, F.next s = .ok (some (a, n)) → motive (s.drop n) → motive s)
    (s : List β) : motive s := by
  induction hlen : s.length using Nat.strongRecOn generalizing s with
  | ind len ih =>
    match h : F.next s with
    | .error e => exact error s e h
    | .ok none => exact idle s h
    | .ok (some (a, n)) =>
      have hn := F.progress h
      refine item s a n h (ih (s.drop n).length ?_ _ rfl)
      rw [List.length_drop]
      omega

theorem next_rest (s : List β) :
    F.next (F.parse s).rest =
      match (F.parse s).error with
      | some e => .error e
      | none => .ok none := by
  induction s using F.parse_induction with
  | error s e h => rw [F.parse_of_error h, h]
  | idle s h => rw [F.parse_of_idle h, h]
  | item s a n h ih => rw [F.parse_of_item h, ih]

theorem next_rest_of_error {e : ε} (h : (F.parse s).error = some e) :
    F.next (F.parse s).rest = .error e := by
  rw [F.next_rest, h]

theorem next_rest_of_idle (h : (F.parse s).error = none) : F.next (F.parse s).rest = .ok none := by
  rw [F.next_rest, h]

theorem parse_append_of_error {e : ε} (t : List β) (h : (F.parse s).error = some e) :
    F.parse (s ++ t) = ⟨(F.parse s).items, some e, (F.parse s).rest ++ t⟩ := by
  induction s using F.parse_induction with
  | error s e' he =>
    rw [F.parse_of_error he] at h ⊢
    cases h
    rw [F.parse_of_error (F.error_append t he)]
  | idle s hi =>
    rw [F.parse_of_idle hi] at h
    cases h
  | item s a n hi ih =>
    have hn := F.progress hi
    rw [F.parse_of_item hi] at h ⊢
    rw [F.parse_of_item (F.item_append t hi), List.drop_append_of_le_length hn.2, ih h]

/-- Reading goes on with what was left over and what has arrived since. -/
theorem parse_append (t : List β) (h : (F.parse s).error = none) :
    F.parse (s ++ t) = ⟨(F.parse s).items ++ (F.parse ((F.parse s).rest ++ t)).items,
      (F.parse ((F.parse s).rest ++ t)).error, (F.parse ((F.parse s).rest ++ t)).rest⟩ := by
  induction s using F.parse_induction with
  | error s e he =>
    rw [F.parse_of_error he] at h
    cases h
  | idle s hi =>
    rw [F.parse_of_idle hi]
    rfl
  | item s a n hi ih =>
    have hn := F.progress hi
    rw [F.parse_of_item hi] at h
    rw [F.parse_of_item (F.item_append t hi), List.drop_append_of_le_length hn.2, ih h,
      F.parse_of_item hi]
    rfl

end Framing
