import Mathlib.Tactic.Basic
import Mathlib.Data.List.Basic

/-!
# Readers that may fail

A reader takes what it needs from the front of a list and leaves the rest. `run_bind` and the
rules beside each reader say what it returns on a given input, `Meets` what holds of everything
it can return or fail with.
-/

abbrev Reader (ε β : Type) := StateT (List β) (Except ε)

/-- What a fallible computation returns satisfies `P`, and what it fails with
satisfies `E`. -/
def Except.Meets {ε α : Type} (x : Except ε α) (P : α → Prop) (E : ε → Prop) : Prop :=
  (∀ v, x = .ok v → P v) ∧ ∀ e, x = .error e → E e

namespace Except

variable {α γ ε : Type} {P : α → Prop} {Q : γ → Prop} {E : ε → Prop} {x : Except ε α}
  {f : α → Except ε γ}

theorem bind_of_ok {v : α} (h : x = .ok v) : (x >>= f) = f v := by
  rw [h]
  rfl

theorem of_bind_ok {v : γ} (h : (x >>= f) = .ok v) : ∃ u, x = .ok u ∧ f u = .ok v := by
  cases x with
  | error e => cases h
  | ok u => exact ⟨u, rfl, h⟩

theorem Meets.ok {v : α} (h : P v) : (Except.ok v : Except ε α).Meets P E := by
  refine ⟨?_, fun e he => nomatch he⟩
  intro u hu
  cases hu
  exact h

theorem Meets.error {e : ε} (h : E e) : (Except.error e : Except ε α).Meets P E := by
  refine ⟨fun u hu => (nomatch hu), ?_⟩
  intro f hf
  cases hf
  exact h

theorem Meets.bind (hx : x.Meets P E) (hf : ∀ v, P v → (f v).Meets Q E) : (x >>= f).Meets Q E := by
  cases x with
  | error e => exact .error (hx.2 e rfl)
  | ok v => exact hf v (hx.1 v rfl)

theorem Meets.weaken {P' : α → Prop} (hx : x.Meets P E) (h : ∀ v, P v → P' v) : x.Meets P' E :=
  ⟨fun v hv => h v (hx.1 v hv), hx.2⟩

end Except

namespace Reader

variable {ε β α γ : Type} {n : ℕ} {p : Reader ε β α} {f : α → Reader ε β γ}

def take (n : ℕ) (e : ε) : Reader ε β (List β) := fun input =>
  if n ≤ input.length then .ok (input.take n, input.drop n) else .error e

def ofExcept (x : Except ε α) : Reader ε β α := fun input => x.map fun v => (v, input)

def exactly (n : ℕ) (short : ε) (long : ℕ → ε) : Reader ε β Unit := fun input =>
  if input.length < n then .error short
  else if n < input.length then .error (long (input.length - n))
  else .ok ((), input)

theorem run_bind {input rest : List β} {v : α} (h : p.run input = .ok (v, rest)) :
    (p >>= f).run input = (f v).run rest := by
  rw [StateT.run_bind, h]
  rfl

theorem run_map {f : α → γ} {input rest : List β} {v : α} (h : p.run input = .ok (v, rest)) :
    (f <$> p).run input = .ok (f v, rest) := by
  rw [StateT.run_map, h]
  rfl

theorem run_take {e : ε} (taken rest : List β) (h : taken.length = n) :
    (take n e).run (taken ++ rest) = .ok (taken, rest) := by
  show (if n ≤ (taken ++ rest).length then _ else _) = _
  rw [if_pos (by rw [List.length_append]; omega), List.take_left' h, List.drop_left' h]

theorem run_ofExcept {x : Except ε α} {v : α} (h : x = .ok v) (input : List β) :
    (ofExcept x >>= f).run input = (f v).run input := by
  rw [h]
  rfl

theorem run_exactly {short : ε} {long : ℕ → ε} {input : List β} (h : input.length = n) :
    (exactly n short long).run input = .ok ((), input) := by
  show (if input.length < n then _ else _) = _
  rw [if_neg (by omega), if_neg (by omega)]

/-- Whatever the input, the reader's result satisfies `P` and its failure `E`. -/
def Meets (p : Reader ε β α) (P : α → Prop) (E : ε → Prop) : Prop :=
  ∀ input, (p.run input).Meets (fun out => P out.1) E

variable {P : α → Prop} {Q : γ → Prop} {E : ε → Prop}

theorem Meets.pure {v : α} (h : P v) : (Pure.pure v : Reader ε β α).Meets P E :=
  fun _ => .ok h

theorem Meets.throw {e : ε} (h : E e) : (throw e : Reader ε β α).Meets P E :=
  fun _ => .error h

theorem Meets.bind (hp : p.Meets P E) (hf : ∀ v, P v → (f v).Meets Q E) : (p >>= f).Meets Q E := by
  intro input
  rw [StateT.run_bind]
  exact (hp input).bind fun out hout => hf out.1 hout out.2

theorem Meets.map {f : α → γ} (hp : p.Meets P E) (hf : ∀ v, P v → Q (f v)) :
    (f <$> p).Meets Q E := by
  intro input
  rw [StateT.run_map]
  refine ⟨?_, ?_⟩
  · intro out hout
    cases hrun : p.run input with
    | error e =>
      rw [hrun] at hout
      cases hout
    | ok found =>
      rw [hrun] at hout
      cases hout
      exact hf _ ((hp input).1 found hrun)
  · intro e he
    cases hrun : p.run input with
    | error e' =>
      rw [hrun] at he
      cases he
      exact (hp input).2 e hrun
    | ok =>
      rw [hrun] at he
      cases he

theorem Meets.take {e : ε} (h : E e) :
    (Reader.take n e : Reader ε β (List β)).Meets (fun taken => taken.length = n) E := by
  intro input
  show (if n ≤ input.length then _ else _ : Except ε (List β × List β)).Meets _ _
  split
  · have hlen : (input.take n).length = n := by
      rw [List.length_take]
      omega
    exact .ok hlen
  · exact .error h

theorem Meets.ofExcept {x : Except ε α} (h : x.Meets P E) :
    (Reader.ofExcept x : Reader ε β α).Meets P E := by
  intro input
  cases x with
  | error e => exact .error (h.2 e rfl)
  | ok v => exact .ok (h.1 v rfl)

theorem Meets.exactly {short : ε} {long : ℕ → ε} (hs : E short) (hl : ∀ k, E (long k)) :
    (Reader.exactly n short long : Reader ε β Unit).Meets (fun _ => True) E := by
  intro input
  show (if input.length < n then _ else _ : Except ε (Unit × List β)).Meets _ _
  split
  · exact .error hs
  · split
    · exact .error (hl _)
    · exact .ok trivial

theorem Meets.get : (get : Reader ε β (List β)).Meets (fun _ => True) E := fun _ => .ok trivial

end Reader
