import Mathlib.Tactic.Basic
import Mathlib.Data.List.Basic

/-!
# Runs of a deterministic labelled machine

A machine is a partial function `step : σ → α → Option σ`: the label resolves every choice, and
`none` says that it is not enabled. Reachability and the induction rule for invariants, for every
run and for the runs whose steps all meet a side condition.
-/

namespace Lts

variable {σ α : Type} {step : σ → α → Option σ}

/- The state after a list of labels, if every one of them is enabled in turn. -/
def exec (step : σ → α → Option σ) : σ → List α → Option σ
  | s, [] => some s
  | s, a :: as => (step s a).bind fun t => exec step t as

/- States reached by runs whose steps all satisfy `ok`. -/
inductive ReachableBy (step : σ → α → Option σ) (ok : σ → α → Prop) (start : σ) : σ → Prop where
  | start : ReachableBy step ok start start
  | next {s t : σ} {a : α} : ReachableBy step ok start s → ok s a → step s a = some t →
      ReachableBy step ok start t

def Reachable (step : σ → α → Option σ) (start : σ) : σ → Prop :=
  ReachableBy step (fun _ _ => True) start

theorem ReachableBy.invariant {ok : σ → α → Prop} {start s : σ} {P : σ → Prop}
    (h0 : P start) (hstep : ∀ s a t, P s → ok s a → step s a = some t → P t)
    (h : ReachableBy step ok start s) : P s := by
  induction h with
  | start => exact h0
  | next _ hok hs ih => exact hstep _ _ _ ih hok hs

theorem Reachable.invariant {start s : σ} {P : σ → Prop}
    (h0 : P start) (hstep : ∀ s a t, P s → step s a = some t → P t)
    (h : Reachable step start s) : P s :=
  ReachableBy.invariant h0 (fun s a t hs _ ht => hstep s a t hs ht) h

theorem Reachable.start (s : σ) : Reachable step s s := ReachableBy.start

theorem Reachable.next {start s t : σ} {a : α} (h : Reachable step start s)
    (hs : step s a = some t) : Reachable step start t :=
  ReachableBy.next h trivial hs

theorem ReachableBy.reachable {ok : σ → α → Prop} {start s : σ}
    (h : ReachableBy step ok start s) : Reachable step start s := by
  induction h with
  | start => exact Reachable.start _
  | next _ _ hs ih => exact ih.next hs

theorem reachable_exec {start s t : σ} (as : List α) (h : Reachable step start s)
    (ht : exec step s as = some t) : Reachable step start t := by
  induction as generalizing s with
  | nil =>
    cases ht
    exact h
  | cons a as ih =>
    obtain ⟨u, hu, hrest⟩ := Option.bind_eq_some_iff.mp ht
    exact ih (h.next hu) hrest

theorem reachableBy_exec {ok : σ → α → Prop} {start s t : σ} (as : List α)
    (hok : ∀ a ∈ as, ∀ s, ok s a) (h : ReachableBy step ok start s)
    (ht : exec step s as = some t) : ReachableBy step ok start t := by
  induction as generalizing s with
  | nil =>
    cases ht
    exact h
  | cons a as ih =>
    obtain ⟨u, hu, hrest⟩ := Option.bind_eq_some_iff.mp ht
    refine ih (fun b hb => hok b (List.mem_cons_of_mem a hb)) ?_ hrest
    exact h.next (hok a (List.mem_cons_self) s) hu

def execBy (step : σ → α → Option σ) (ok : σ → α → Prop) [∀ s a, Decidable (ok s a)] :
    σ → List α → Option σ
  | s, [] => some s
  | s, a :: as => if ok s a then (step s a).bind fun t => execBy step ok t as else none

theorem reachableBy_execBy {ok : σ → α → Prop} [∀ s a, Decidable (ok s a)] {start s t : σ}
    (as : List α) (h : ReachableBy step ok start s) (ht : execBy step ok s as = some t) :
    ReachableBy step ok start t := by
  induction as generalizing s with
  | nil =>
    cases ht
    exact h
  | cons a as ih =>
    unfold execBy at ht
    split at ht
    · rename_i hok
      obtain ⟨u, hu, hrest⟩ := Option.bind_eq_some_iff.mp ht
      exact ih (h.next hok hu) hrest
    · cases ht

theorem exec_append (s : σ) (as bs : List α) :
    exec step s (as ++ bs) = (exec step s as).bind fun t => exec step t bs := by
  induction as generalizing s with
  | nil => rfl
  | cons a as ih =>
    show (step s a).bind (fun t => exec step t (as ++ bs)) = _
    simp only [exec, ih, Option.bind_assoc]

theorem exec_snoc {s t : σ} {as : List α} (h : exec step s as = some t) (a : α) :
    exec step s (as ++ [a]) = step t a := by
  rw [exec_append, h]
  show (step t a).bind (fun u => some u) = step t a
  cases step t a <;> rfl

theorem exec_trans {s t u : σ} {as bs : List α} (h : exec step s as = some t)
    (h' : exec step t bs = some u) : exec step s (as ++ bs) = some u := by
  rw [exec_append, h]
  exact h'

theorem exec_of_isPrefix {s t : σ} {as bs : List α} (hp : as <+: bs)
    (h : exec step s bs = some t) : ∃ u, exec step s as = some u := by
  obtain ⟨cs, rfl⟩ := hp
  rw [exec_append] at h
  obtain ⟨u, hu, -⟩ := Option.bind_eq_some_iff.mp h
  exact ⟨u, hu⟩

theorem exec_history {start s : σ} {P : List α → σ → Prop} (h0 : P [] start)
    (hstep : ∀ as s a t, P as s → step s a = some t → P (as ++ [a]) t) {as : List α}
    (h : exec step start as = some s) : P as s := by
  suffices hgen : ∀ (as done : List α) (t : σ), P done t → exec step t as = some s →
      P (done ++ as) s from hgen as [] start h0 h
  intro as
  induction as with
  | nil =>
    intro done t hP ht
    cases ht
    rwa [List.append_nil]
  | cons a as ih =>
    intro done t hP ht
    obtain ⟨u, hu, hrest⟩ := Option.bind_eq_some_iff.mp ht
    have hnext := ih (done ++ [a]) u (hstep done t a u hP hu) hrest
    rwa [List.append_assoc] at hnext

end Lts
