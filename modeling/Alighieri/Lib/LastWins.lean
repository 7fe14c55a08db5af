import Mathlib.Tactic.Basic

/-!
# Settings of which the last one counts

A reader that keeps one setting for each key allows what the last setting of every key allows.
Nothing that is written is lost exactly when the last of each key is at least as strict as the
ones before it, provided that settings of different keys look at different parts of a request and
none of them is unsatisfiable.
-/

namespace Alighieri.LastWins

variable {D K R : Type} [DecidableEq K] {key : D → K} {ds : List D}

def last (key : D → K) (k : K) : List D → Option D
  | [] => none
  | d :: ds =>
    match last key k ds with
    | some e => some e
    | none => if key d = k then some d else none

theorem last_cons_ne {k : K} {d : D} (h : key d ≠ k) (ds : List D) :
    last key k (d :: ds) = last key k ds := by
  rw [last, if_neg h]
  cases last key k ds <;> rfl

theorem last_filter {k : K} {p : K → Bool} (hp : p k = true) (ds : List D) :
    last key k (ds.filter fun d => p (key d)) = last key k ds := by
  induction ds with
  | nil => rfl
  | cons d ds ih =>
    by_cases hd : p (key d) = true
    · rw [List.filter_cons, if_pos hd, last, last, ih]
    · have hne : key d ≠ k := fun hk => hd (hk ▸ hp)
      rw [List.filter_cons, if_neg hd, ih, last_cons_ne hne]

theorem last_some {k : K} {e : D} (h : last key k ds = some e) : e ∈ ds ∧ key e = k := by
  induction ds with
  | nil => cases h
  | cons d ds ih =>
    rw [last] at h
    cases hds : last key k ds with
    | some f =>
      rw [hds] at h
      cases h
      exact ⟨List.mem_cons_of_mem _ (ih hds).1, (ih hds).2⟩
    | none =>
      rw [hds] at h
      by_cases hkey : key d = k
      · simp only [hkey, if_true] at h
        cases h
        exact ⟨List.mem_cons_self, hkey⟩
      · simp only [hkey, if_false] at h
        cases h

theorem exists_last {d : D} (h : d ∈ ds) : ∃ e, last key (key d) ds = some e := by
  induction ds with
  | nil => cases h
  | cons c ds ih =>
    cases hds : last key (key d) ds with
    | some e => exact ⟨e, by rw [last, hds]⟩
    | none =>
      rcases List.mem_cons.mp h with rfl | hmem
      · exact ⟨d, by rw [last, hds, if_pos rfl]⟩
      · obtain ⟨e, he⟩ := ih hmem
        rw [hds] at he
        cases he

/-- What settings allow, over the requests in `dom`. `graft k x b` is the request `b` with
the part that `k` looks at taken from `x`. -/
structure Reading (D K R : Type) [DecidableEq K] where
  key : D → K
  allows : D → R → Prop
  dom : R → Prop
  graft : K → R → R → R
  graft_dom : ∀ {k x b}, dom x → dom b → dom (graft k x b)
  graft_same : ∀ {d x b}, dom x → dom b → (allows d (graft (key d) x b) ↔ allows d x)
  graft_other : ∀ {d k x b}, key d ≠ k → dom x → dom b → (allows d (graft k x b) ↔ allows d b)

namespace Reading

variable (m : Reading D K R)

def Passes (ds : List D) (r : R) : Prop := ∀ k e, last m.key k ds = some e → m.allows e r

theorem exists_passes (hdom : ∃ r, m.dom r) (h : ∀ d ∈ ds, ∃ r, m.dom r ∧ m.allows d r) :
    ∃ r, m.dom r ∧ m.Passes ds r := by
  induction ds with
  | nil =>
    obtain ⟨r, hr⟩ := hdom
    exact ⟨r, hr, fun k e he => (by cases he)⟩
  | cons d ds ih =>
    obtain ⟨b, hb, hpass⟩ := ih fun c hc => h c (List.mem_cons_of_mem _ hc)
    cases hds : last m.key (m.key d) ds with
    | some f =>
      -- `d` is overwritten later on
      refine ⟨b, hb, fun k e he => hpass k e ?_⟩
      by_cases hk : m.key d = k
      · subst hk
        rw [last, hds] at he
        rw [hds]
        exact he
      · rw [last_cons_ne hk] at he
        exact he
    | none =>
      obtain ⟨x, hx, hallows⟩ := h d (List.mem_cons_self)
      refine ⟨m.graft (m.key d) x b, m.graft_dom hx hb, fun k e he => ?_⟩
      by_cases hk : m.key d = k
      · subst hk
        rw [last, hds] at he
        simp only [if_true] at he
        cases he
        exact (m.graft_same hx hb).mpr hallows
      · rw [last_cons_ne hk] at he
        have hne : m.key e ≠ m.key d := by
          rw [(last_some he).2]
          exact fun heq => hk heq.symm
        exact (m.graft_other hne hx hb).mpr (hpass k e he)

theorem passes_all_iff (hdom : ∃ r, m.dom r) (h : ∀ d ∈ ds, ∃ r, m.dom r ∧ m.allows d r) :
    (∀ r, m.dom r → m.Passes ds r → ∀ d ∈ ds, m.allows d r) ↔
      ∀ d ∈ ds, ∀ e, last m.key (m.key d) ds = some e →
        ∀ r, m.dom r → m.allows e r → m.allows d r := by
  constructor
  · intro hall d hd e he r hr hallows
    obtain ⟨b, hb, hpass⟩ := m.exists_passes hdom h
    -- `r` in the part of this key, a passing request in the others
    have hgraft : m.Passes ds (m.graft (m.key d) r b) := by
      intro k f hf
      by_cases hk : m.key f = m.key d
      · have hsame : f = e := by
          rw [← (last_some hf).2, hk, he] at hf
          cases hf
          rfl
        subst hsame
        rw [← hk]
        exact (m.graft_same hr hb).mpr hallows
      · exact (m.graft_other hk hr hb).mpr (hpass k f hf)
    exact (m.graft_same hr hb).mp (hall _ (m.graft_dom hr hb) hgraft d hd)
  · intro hstrict r hr hpass d hd
    obtain ⟨e, he⟩ : ∃ e, last m.key (m.key d) ds = some e := exists_last hd
    exact hstrict d hd e he r hr (hpass _ e he)

end Reading

end Alighieri.LastWins
