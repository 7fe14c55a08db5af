import Mathlib.Data.Finset.Card
import Alighieri.Lib.Transition
import Alighieri.Runtime.Rotation

/-!
# Rotation when file operations fail (runtime.rs:1749-1795, 1864-1878)

Every operation of a write can fail, and a rotation stops at the first one that does. Slot 0 is
the path, slot `i` the name `rotated_path(path, i)`; these names differ (`pathOf_inj`). A file
carries the number of its generation. The handle is closed before the files are moved, so an open
handle is that of slot 0. As long as every operation works, this is `RotatingFile` (`Mirrors`).
-/

namespace Alighieri.Runtime
open Lts Option

structure LogFile where
  gen : ℕ
  size : ℕ
  deriving DecidableEq, Repr

abbrev Slots := ℕ → Option LogFile

/- How `open_rotating_log_file` ends: `created` is an error after the file is there. -/
inductive Opening where
  | opened
  | refused
  | created
  deriving DecidableEq, Repr

/-- What the file system answers during one write: `rename i` is the rename of
slot `i`, `write` how many bytes are written if the write fails. -/
structure Ops where
  flush : Bool := true
  sync : Bool := true
  remove : Bool := true
  rename : ℕ → Bool := fun _ => true
  opening : Opening := .opened
  metadata : Bool := true
  write : Option ℕ := none

/-- Every operation of a rotation works. -/
structure Ops.Rotates (ops : Ops) (keep : ℕ) : Prop where
  flush : ops.flush = true
  sync : ops.sync = true
  remove : ops.remove = true
  rename : ∀ i < keep, ops.rename i = true
  opening : ops.opening = .opened
  metadata : ops.metadata = true

structure Rotor where
  slots : Slots
  maxBytes : ℕ
  keep : ℕ
  isOpen : Bool
  len : ℕ
  fresh : ℕ

namespace Slots

def remove (f : Slots) (i : ℕ) : Slots := fun j => if j = i then none else f j

def rename (f : Slots) (i : ℕ) : Slots :=
  match f i with
  | none => f
  | some x => fun j => if j = i + 1 then some x else if j = i then none else f j

/- The renames of slots `n - 1`, ..., `0`, up to the first that fails. -/
def shift (works : ℕ → Bool) : ℕ → Slots → Slots × Bool
  | 0, f => (f, true)
  | n + 1, f => if works n then shift works n (f.rename n) else (f, false)

def grow (f : Slots) (bytes : ℕ) : Slots :=
  fun j => if j = 0 then (f 0).map fun x => { x with size := x.size + bytes } else f j

end Slots

open Slots

namespace Rotor

def shouldRotate (s : Rotor) (incoming : ℕ) : Bool :=
  decide (0 < s.maxBytes) && decide (0 < s.len) &&
    decide (s.maxBytes < saturatingAdd s.len incoming)

def create (s : Rotor) : Rotor :=
  match s.slots 0 with
  | some _ => s
  | none =>
    { s with
      slots := fun j => if j = 0 then some ⟨s.fresh, 0⟩ else s.slots j
      fresh := s.fresh + 1 }

def reopen (ops : Ops) (s : Rotor) : Rotor × Bool :=
  match ops.opening with
  | .refused => (s, false)
  | .created => (s.create, false)
  | .opened =>
    if ops.metadata then
      ({ s.create with isOpen := true, len := ((s.create.slots 0).map LogFile.size).getD 0 }, true)
    else (s.create, false)

/- With `keep = 0` the slot that is removed is the path, and nothing is moved. -/
def rotate (ops : Ops) (s : Rotor) : Rotor × Bool :=
  if s.isOpen && !(ops.flush && ops.sync) then ({ s with isOpen := false }, false)
  else if !ops.remove then ({ s with isOpen := false }, false)
  else
    let moved := shift ops.rename s.keep (s.slots.remove s.keep)
    let s := { s with isOpen := false, slots := moved.1 }
    if moved.2 then reopen ops s else (s, false)

/- Without a handle the write fails with `log file handle is closed`. -/
def append (ops : Ops) (incoming : ℕ) (s : Rotor) : Rotor × Bool :=
  if s.isOpen then
    match ops.write with
    | none => ({ s with slots := s.slots.grow incoming, len := saturatingAdd s.len incoming }, true)
    | some bytes => ({ s with slots := s.slots.grow bytes }, false)
  else (s, false)

def writeAll (ops : Ops) (incoming : ℕ) (s : Rotor) : Rotor × Bool :=
  if s.shouldRotate incoming then
    if (s.rotate ops).2 then append ops incoming (s.rotate ops).1 else ((s.rotate ops).1, false)
  else append ops incoming s

def step (s : Rotor) (write : ℕ × Ops) : Option Rotor := some (s.writeAll write.2 write.1).1

def Holds (s : Rotor) (gen : ℕ) : Prop := ∃ i x, s.slots i = some x ∧ x.gen = gen

def KeepNewer (s : Rotor) (gen : ℕ) : Prop :=
  ∃ newer : Finset ℕ, newer.card = s.keep ∧ ∀ g ∈ newer, gen < g ∧ s.Holds g

/-- What is asked of a write: a generation it removes has `keep` newer ones, and
the record is written if the file system works. -/
def Careful (s : Rotor) (incoming : ℕ) (ops : Ops) : Prop :=
  (∀ g, s.Holds g → ¬ (s.writeAll ops incoming).1.Holds g → s.KeepNewer g) ∧
    (ops = {} → (s.writeAll ops incoming).2 = true)

/-- The rotation gets as far as removing the oldest file. -/
def Removes (s : Rotor) (incoming : ℕ) (ops : Ops) : Prop :=
  s.shouldRotate incoming = true ∧ (s.isOpen = true → ops.flush = true ∧ ops.sync = true) ∧
    ops.remove = true

/-- Files in higher slots are older, and the handle is that of slot 0. -/
structure Ordered (s : Rotor) : Prop where
  age : ∀ i j x y, i < j → s.slots i = some x → s.slots j = some y → y.gen < x.gen
  fresh : ∀ i x, s.slots i = some x → x.gen < s.fresh
  active : s.isOpen = true → s.slots 0 ≠ none

/-- The writer is open, and no name is missing between the path and the oldest file. -/
structure Sound (s : Rotor) : Prop extends Ordered s where
  isOpen : s.isOpen = true
  solid : ∀ i j, i < j → j ≤ s.keep → s.slots j ≠ none → s.slots i ≠ none

/- If the write asks for a rotation, the rotation does not fail. -/
def RotationWorks (s : Rotor) (write : ℕ × Ops) : Prop :=
  s.shouldRotate write.1 = true → write.2.Rotates s.keep

end Rotor

/-! ### The renames -/

namespace Slots

variable {k n : ℕ} {x : LogFile} {f : Slots} {works : ℕ → Bool}

/-- Slots `k`, ..., `n - 1` moved up by one. -/
def slide (f : Slots) (k n : ℕ) : Slots :=
  fun i => if i < k then f i else if i = k then none else if i ≤ n then f (i - 1) else f i

theorem rename_eq (hfree : f (n + 1) = none) : f.rename n = f.slide n (n + 1) := by
  funext j
  cases hx : f n with
  | none | some x =>
    simp only [rename, hx]
    unfold slide
    grind

theorem slide_self (hfree : f n = none) : f.slide n n = f := by
  funext j
  unfold slide
  grind

theorem slide_slide (hk : k ≤ n) : (f.slide n (n + 1)).slide k n = f.slide k (n + 1) := by
  funext j
  unfold slide
  grind

/-- Each rename finds its target free, so that a part of the slots has moved. -/
theorem shift_eq (n : ℕ) (hfree : f n = none) :
    ∃ k ≤ n, (shift works n f).1 = f.slide k n ∧
      ((∀ i < n, works i = true) → k = 0 ∧ (shift works n f).2 = true) := by
  induction n generalizing f with
  | zero => exact ⟨0, Nat.le_refl 0, (slide_self hfree).symm, fun _ => ⟨rfl, rfl⟩⟩
  | succ n ih =>
    unfold shift
    split
    · rw [rename_eq hfree]
      obtain ⟨k, hk, heq, hall⟩ := @ih (f.slide n (n + 1)) (by unfold slide; grind)
      exact ⟨k, Nat.le_succ_of_le hk, heq.trans (slide_slide hk),
        fun hworks => hall fun i hi => hworks i (Nat.lt_succ_of_lt hi)⟩
    · rename_i hno
      exact ⟨n + 1, Nat.le_refl _, (slide_self hfree).symm,
        fun hworks => absurd (hworks n (Nat.lt_succ_self n)) hno⟩

theorem slide_some {i : ℕ} (h : f.slide k n i = some x) :
    ∃ j, f j = some x ∧ ((i = j ∧ (j < k ∨ n < j)) ∨ (i = j + 1 ∧ k ≤ j ∧ j < n)) := by
  unfold slide at h
  split at h
  · rename_i hi
    exact ⟨i, h, .inl ⟨rfl, .inl hi⟩⟩
  · split at h
    · cases h
    split at h
    · exact ⟨i - 1, h, .inr (by omega)⟩
    · exact ⟨i, h, .inl (by omega)⟩

theorem slide_of_some {j : ℕ} (hk : k ≤ n) (hj : j ≠ n) (h : f j = some x) :
    ∃ i, f.slide k n i = some x := by
  by_cases hmoved : k ≤ j ∧ j < n
  · refine ⟨j + 1, ?_⟩
    unfold slide
    grind
  · refine ⟨j, ?_⟩
    unfold slide
    grind

end Slots

namespace Rotor

variable {s : Rotor} {ops : Ops} {x : LogFile} {k incoming g : ℕ}

/-! ### Which generations are there -/

def slid (s : Rotor) (k : ℕ) : Rotor :=
  { s with isOpen := false, slots := (s.slots.remove s.keep).slide k s.keep }

theorem Ordered.close (h : s.Ordered) : Ordered { s with isOpen := false } :=
  ⟨h.age, h.fresh, nofun⟩

theorem remove_self (f : Slots) (n : ℕ) : f.remove n n = none := if_pos rfl

theorem Ordered.slid (h : s.Ordered) (k : ℕ) : (s.slid k).Ordered := by
  have hold : ∀ i x, (s.slots.remove s.keep) i = some x → s.slots i = some x := by
    intro i x hx
    unfold remove at hx
    grind
  refine ⟨?_, ?_, nofun⟩
  · intro i j x y hij hx hy
    obtain ⟨a, ha, hfroma⟩ := slide_some hx
    obtain ⟨b, hb, hfromb⟩ := slide_some hy
    exact h.age a b x y (by omega) (hold a x ha) (hold b y hb)
  · intro i x hx
    obtain ⟨a, ha, -⟩ := slide_some hx
    exact h.fresh a x (hold a x ha)

theorem slid_holds (hk : k ≤ s.keep) :
    (s.slid k).Holds g ↔ ∃ j x, j ≠ s.keep ∧ s.slots j = some x ∧ x.gen = g := by
  constructor
  · rintro ⟨i, x, hx, hg⟩
    obtain ⟨j, hj, -⟩ := slide_some hx
    unfold remove at hj
    exact ⟨j, x, by grind, by grind, hg⟩
  · rintro ⟨j, x, hj, hx, hg⟩
    have hmem : s.slots.remove s.keep j = some x := by rw [remove, if_neg hj, hx]
    obtain ⟨i, hi⟩ := slide_of_some hk hj hmem
    exact ⟨i, x, hi, hg⟩

theorem Ordered.create (h : s.Ordered) : s.create.Ordered ∧ s.create.slots 0 ≠ none := by
  unfold Rotor.create
  split
  · rename_i hx
    exact ⟨h, by simp [hx]⟩
  · refine ⟨⟨?_, ?_, fun _ => by simp⟩, by simp⟩
    · intro i j x y hij hx hy
      have hj := h.fresh j y
      have hage := h.age i j x y hij
      grind
    · intro i x hx
      have := h.fresh i x
      grind

theorem create_holds (hg : g < s.fresh) : s.create.Holds g ↔ s.Holds g := by
  unfold Rotor.create
  split
  · rfl
  · rename_i hnone
    constructor
    · rintro ⟨i, x, hx, rfl⟩
      by_cases hi : i = 0
      · simp only [hi, if_true, some.injEq] at hx
        rw [← hx] at hg
        exact absurd hg (Nat.lt_irrefl _)
      · exact ⟨i, x, by simpa [hi] using hx, rfl⟩
    · rintro ⟨i, x, hx, rfl⟩
      have hi : i ≠ 0 := by
        rintro rfl
        rw [hnone] at hx
        cases hx
      exact ⟨i, x, by simpa [hi] using hx, rfl⟩

theorem Ordered.reopen (h : s.Ordered) (ops : Ops) (g : ℕ) :
    ((s.reopen ops).1).Ordered ∧ (g < s.fresh → ((s.reopen ops).1.Holds g ↔ s.Holds g)) := by
  unfold Rotor.reopen
  split
  · exact ⟨h, fun _ => Iff.rfl⟩
  · exact ⟨h.create.1, create_holds⟩
  · split
    · exact ⟨⟨h.create.1.age, h.create.1.fresh, fun _ => h.create.2⟩, create_holds⟩
    · exact ⟨h.create.1, create_holds⟩

/-- A rotation removes the oldest file if it gets there, and no other. -/
theorem Ordered.rotate (h : s.Ordered) (ops : Ops) :
    (s.rotate ops).1.Ordered ∧
      ∀ g, s.Holds g → ((s.rotate ops).1.Holds g ↔
        ¬ ((s.isOpen = true → ops.flush = true ∧ ops.sync = true) ∧ ops.remove = true ∧
          ∃ x, s.slots s.keep = some x ∧ x.gen = g)) := by
  unfold Rotor.rotate
  split
  · refine ⟨h.close, fun g hg => iff_of_true hg ?_⟩
    rintro ⟨hworks, -⟩
    grind
  · rename_i hflush
    split
    · rename_i hremove
      refine ⟨h.close, fun g hg => iff_of_true hg ?_⟩
      rintro ⟨-, hworks, -⟩
      rw [hworks] at hremove
      cases hremove
    · rename_i hremove
      obtain ⟨k, hk, hslots, -⟩ := @Slots.shift_eq _ ops.rename s.keep (remove_self s.slots s.keep)
      have hsame : { s with
          isOpen := false
          slots := (shift ops.rename s.keep (s.slots.remove s.keep)).1 } = s.slid k := by
        rw [hslots]
        rfl
      have hkept : ∀ g, s.Holds g → ((s.slid k).Holds g ↔
          ¬ ((s.isOpen = true → ops.flush = true ∧ ops.sync = true) ∧ ops.remove = true ∧
            ∃ y, s.slots s.keep = some y ∧ y.gen = g)) := by
        rintro g ⟨i, x, hx, rfl⟩
        rw [slid_holds hk]
        constructor
        · rintro ⟨j, y, hj, hy, hyx⟩ ⟨-, -, z, hz, hzx⟩
          rcases Nat.lt_or_gt_of_ne hj with hlt | hgt
          · have := h.age j s.keep y z hlt hy hz
            omega
          · have := h.age s.keep j z y hgt hz hy
            omega
        · intro hno
          refine ⟨i, x, ?_, hx, rfl⟩
          rintro rfl
          exact hno ⟨by grind, by simpa using hremove, x, hx, rfl⟩
      simp only [hsame]
      split
      · refine ⟨((h.slid k).reopen ops 0).1, ?_⟩
        rintro g ⟨i, x, hx, rfl⟩
        have hopen := ((h.slid k).reopen ops x.gen).2 (h.fresh i x hx)
        exact hopen.trans (hkept x.gen ⟨i, x, hx, rfl⟩)
      · exact ⟨h.slid k, hkept⟩

theorem Ordered.append (h : s.Ordered) (ops : Ops) (incoming g : ℕ) :
    (s.append ops incoming).1.Ordered ∧ ((s.append ops incoming).1.Holds g ↔ s.Holds g) := by
  have hgrow : ∀ bytes i y, s.slots.grow bytes i = some y →
      ∃ x, s.slots i = some x ∧ y.gen = x.gen := by
    intro bytes i y hy
    unfold grow at hy
    split at hy
    · rename_i hi
      obtain ⟨x, hx, rfl⟩ := map_eq_some_iff.mp hy
      exact ⟨x, hi ▸ hx, rfl⟩
    · exact ⟨y, hy, rfl⟩
  have hback : ∀ bytes i x, s.slots i = some x → ∃ y, s.slots.grow bytes i = some y ∧ y.gen = x.gen := by
    intro bytes i x hx
    unfold grow
    split
    · rename_i hi
      exact ⟨{ x with size := x.size + bytes }, by rw [← hi, hx]; rfl, rfl⟩
    · exact ⟨x, hx, rfl⟩
  have hall : ∀ bytes len, Ordered { s with slots := s.slots.grow bytes, len := len } ∧
      (Holds { s with slots := s.slots.grow bytes, len := len } g ↔ s.Holds g) := by
    intro bytes len
    refine ⟨⟨?_, ?_, ?_⟩, ?_, ?_⟩
    · intro i j x y hij hx hy
      obtain ⟨x', hx', hxg⟩ := hgrow bytes i x hx
      obtain ⟨y', hy', hyg⟩ := hgrow bytes j y hy
      rw [hxg, hyg]
      exact h.age i j x' y' hij hx' hy'
    · intro i x hx
      obtain ⟨x', hx', hxg⟩ := hgrow bytes i x hx
      rw [hxg]
      exact h.fresh i x' hx'
    · intro hopen
      obtain ⟨x, hx⟩ := ne_none_iff_exists'.mp (h.active hopen)
      obtain ⟨y, hy, -⟩ := hback bytes 0 x hx
      simp [hy]
    · rintro ⟨i, y, hy, rfl⟩
      obtain ⟨x, hx, hyx⟩ := hgrow bytes i y hy
      exact ⟨i, x, hx, hyx.symm⟩
    · rintro ⟨i, x, hx, rfl⟩
      obtain ⟨y, hy, hyx⟩ := hback bytes i x hx
      exact ⟨i, y, hy, hyx⟩
  unfold Rotor.append
  split
  · split
    · exact hall _ _
    · exact hall _ _
  · exact ⟨h, Iff.rfl⟩

theorem Ordered.writeAll (h : s.Ordered) (ops : Ops) (incoming : ℕ) :
    (s.writeAll ops incoming).1.Ordered ∧
      ∀ g, s.Holds g → ((s.writeAll ops incoming).1.Holds g ↔
        ¬ (s.Removes incoming ops ∧ ∃ x, s.slots s.keep = some x ∧ x.gen = g)) := by
  unfold Rotor.writeAll Removes
  split
  · rename_i hrot
    obtain ⟨hord, hholds⟩ := h.rotate ops
    simp only [hrot, true_and, and_assoc]
    split
    · refine ⟨(hord.append ops incoming 0).1, fun g hg => ?_⟩
      exact (hord.append ops incoming g).2.trans (hholds g hg)
    · exact ⟨hord, hholds⟩
  · rename_i hrot
    refine ⟨(h.append ops incoming 0).1, fun g hg => ?_⟩
    refine (h.append ops incoming g).2.trans (iff_of_true hg ?_)
    rintro ⟨⟨hyes, -⟩, -⟩
    exact hrot hyes

/-! ### Careful writes -/

def genOf (s : Rotor) (i : ℕ) : ℕ := ((s.slots i).map LogFile.gen).getD 0

theorem Ordered.keepNewer_iff (h : s.Ordered) (hx : s.slots s.keep = some x) :
    s.KeepNewer x.gen ↔ ∀ i < s.keep, s.slots i ≠ none := by
  have hgen : ∀ i y, s.slots i = some y → s.genOf i = y.gen := by
    intro i y hy
    simp [genOf, hy]
  constructor
  · rintro ⟨newer, hcard, hnewer⟩ i hi hnone
    have hsub : newer ⊆ ((Finset.range s.keep).erase i).image s.genOf := by
      intro g hg
      obtain ⟨hlt, j, y, hy, rfl⟩ := hnewer g hg
      have hj : j < s.keep := by
        by_contra hge
        rcases Nat.lt_or_eq_of_le (Nat.le_of_not_lt hge) with hgt | heq
        · have := h.age s.keep j x y hgt hx hy
          omega
        · rw [← heq, hx] at hy
          cases hy
          omega
      have hne : j ≠ i := by
        rintro rfl
        rw [hnone] at hy
        cases hy
      exact Finset.mem_image.mpr ⟨j, by simp [hne, hj], hgen j y hy⟩
    have hle := (Finset.card_le_card hsub).trans Finset.card_image_le
    rw [hcard, Finset.card_erase_of_mem (Finset.mem_range.mpr hi), Finset.card_range] at hle
    omega
  · intro hfull
    have hsome : ∀ i < s.keep, ∃ y, s.slots i = some y := fun i hi =>
      ne_none_iff_exists'.mp (hfull i hi)
    refine ⟨(Finset.range s.keep).image s.genOf, ?_, ?_⟩
    · rw [Finset.card_image_of_injOn, Finset.card_range]
      intro i hi j hj hij
      obtain ⟨y, hy⟩ := hsome i (by simpa using hi)
      obtain ⟨z, hz⟩ := hsome j (by simpa using hj)
      rw [hgen i y hy, hgen j z hz] at hij
      by_contra hne
      rcases Nat.lt_or_gt_of_ne hne with hlt | hgt
      · have := h.age i j y z hlt hy hz
        omega
      · have := h.age j i z y hgt hz hy
        omega
    · intro g hg
      obtain ⟨i, hi, rfl⟩ := Finset.mem_image.mp hg
      obtain ⟨y, hy⟩ := hsome i (by simpa using hi)
      rw [hgen i y hy]
      exact ⟨h.age i s.keep y x (by simpa using hi) hy hx, i, y, hy, rfl⟩

/-- What a rotation without failures makes of the files. -/
def rotated (s : Rotor) : Rotor :=
  { s with
    slots := fun i =>
      if i = 0 then some ⟨s.fresh, 0⟩ else if i ≤ s.keep then s.slots (i - 1) else s.slots i
    isOpen := true
    len := 0
    fresh := s.fresh + 1 }

theorem rotate_works (h : ops.Rotates s.keep) : s.rotate ops = (s.rotated, true) := by
  obtain ⟨k, -, hslots, hall⟩ := @Slots.shift_eq (s.slots.remove s.keep) ops.rename s.keep
    (remove_self s.slots s.keep)
  obtain ⟨rfl, hmoved⟩ := hall h.rename
  have hfree : (s.slots.remove s.keep).slide 0 s.keep 0 = none := rfl
  have hfiles : (fun i => if i = 0 then some ⟨s.fresh, 0⟩ else
      (s.slots.remove s.keep).slide 0 s.keep i) = s.rotated.slots := by
    funext i
    simp only [rotated]
    unfold slide remove
    grind
  unfold Rotor.rotate
  simp only [h.flush, h.sync, h.remove, hslots, hmoved, Bool.and_self, Bool.not_true,
    Bool.and_false, Bool.false_eq_true, if_false, if_true]
  unfold Rotor.reopen Rotor.create
  simp only [h.opening, h.metadata, hfree, if_true, hfiles]
  rfl

theorem append_frame (s : Rotor) (ops : Ops) (incoming : ℕ) :
    (s.append ops incoming).1.isOpen = s.isOpen ∧ (s.append ops incoming).1.keep = s.keep ∧
      ∀ i, (s.append ops incoming).1.slots i = none ↔ s.slots i = none := by
  have hgrow : ∀ bytes i, s.slots.grow bytes i = none ↔ s.slots i = none := by
    intro bytes i
    unfold grow
    split
    · rename_i hi
      rw [hi, map_eq_none_iff]
    · rfl
  unfold Rotor.append
  split
  · split
    · exact ⟨rfl, rfl, hgrow _⟩
    · exact ⟨rfl, rfl, hgrow _⟩
  · exact ⟨rfl, rfl, fun _ => Iff.rfl⟩

theorem Sound.rotated (h : s.Sound) : s.rotated.Sound := by
  have hord := (h.toOrdered.rotate {}).1
  rw [rotate_works ⟨rfl, rfl, rfl, fun _ _ => rfl, rfl, rfl⟩] at hord
  refine ⟨hord, rfl, ?_⟩
  intro i j hij hj hsome
  have hsolid := h.solid (i - 1) (j - 1)
  simp only [Rotor.rotated] at hj hsome ⊢
  grind

theorem Sound.append (h : s.Sound) (ops : Ops) (incoming : ℕ) :
    (s.append ops incoming).1.Sound := by
  obtain ⟨hopen, hkeep, hslots⟩ := s.append_frame ops incoming
  refine ⟨(h.toOrdered.append ops incoming 0).1, hopen.trans h.isOpen, ?_⟩
  intro i j hij hj
  rw [hkeep] at hj
  rw [ne_eq, ne_eq, hslots, hslots]
  exact h.solid i j hij hj

theorem Sound.writeAll (h : s.Sound) (hworks : s.RotationWorks (incoming, ops)) :
    (s.writeAll ops incoming).1.Sound := by
  unfold Rotor.writeAll
  split
  · rename_i hrot
    rw [rotate_works (hworks hrot)]
    exact h.rotated.append ops incoming
  · exact h.append ops incoming

/-- A write of a sound writer: whatever fails in it, only a file with `keep` newer ones goes. -/
theorem Sound.careful (h : s.Sound) (incoming : ℕ) (ops : Ops) : s.Careful incoming ops := by
  refine ⟨?_, ?_⟩
  · intro g hheld hgone
    rw [(h.toOrdered.writeAll ops incoming).2 g hheld, not_not] at hgone
    obtain ⟨-, x, hx, rfl⟩ := hgone
    refine (h.toOrdered.keepNewer_iff hx).mpr fun i hi => ?_
    exact h.solid i s.keep hi (Nat.le_refl _) (by simp [hx])
  · rintro rfl
    have happend : ∀ t : Rotor, t.isOpen = true → (t.append {} incoming).2 = true := by
      intro t ht
      unfold Rotor.append
      rw [if_pos ht]
    unfold Rotor.writeAll
    rw [rotate_works ⟨rfl, rfl, rfl, fun _ _ => rfl, rfl, rfl⟩]
    split
    · exact happend s.rotated rfl
    · exact happend _ h.isOpen

/-- From an open log without gaps, as long as no rotation fails: every write is careful, whatever
fails in it. Other writes may have failed before. -/
theorem careful_while_rotations_work {start s : Rotor} (hstart : start.Sound)
    (h : ReachableBy Rotor.step RotationWorks start s) (incoming : ℕ) (ops : Ops) :
    s.Careful incoming ops := by
  have hsound : s.Sound := h.invariant hstart fun s write t hs hworks ht => by
    cases ht
    exact hs.writeAll hworks
  exact hsound.careful incoming ops

end Rotor

/-! ### Without failures this is `RotatingFile` -/

/- The log opened in an empty directory. -/
def Rotor.openIn (maxBytes keep : ℕ) : Rotor where
  slots i := if i = 0 then some ⟨0, 0⟩ else none
  maxBytes := maxBytes
  keep := keep
  isOpen := true
  len := 0
  fresh := 1

theorem Rotor.openIn_sound (maxBytes keep : ℕ) : (Rotor.openIn maxBytes keep).Sound := by
  refine ⟨⟨?_, ?_, fun _ => nofun⟩, rfl, ?_⟩
  · intro i j x y hij hx hy
    simp [Rotor.openIn] at hx hy
    omega
  · intro i x hx
    simp only [Rotor.openIn, ite_none_right_eq_some, some.injEq] at hx
    rw [← hx.2]
    exact Nat.zero_lt_one
  · intro i j hij hj hsome
    simp [Rotor.openIn] at hsome
    omega

/-- The slots have the sizes of the files of these names. -/
structure Mirrors (s : Rotor) (f : RotatingFile) : Prop where
  isOpen : s.isOpen = true
  maxBytes : s.maxBytes = f.maxBytes
  keep : s.keep = f.keep
  len : s.len = f.len
  files : ∀ i, (s.slots i).map LogFile.size = (f.dir.lookup (pathOf f.name i)).map List.length

namespace Mirrors

variable {s : Rotor} {f f' : RotatingFile} {buf : Record}

theorem rotate (h : Mirrors s f) : Mirrors s.rotated f.rotate := by
  obtain ⟨hname, hup, hrest⟩ := f.lookup_moveAlong
  have hdir : f.rotate.dir = f.moveAlong.set f.name (some []) := by
    show openRotatingLogFile f.name f.moveAlong = _
    rw [openRotatingLogFile, hname]
  refine ⟨rfl, h.maxBytes, h.keep, ?_, ?_⟩
  · show 0 = fileLen f.name f.rotate.dir
    rw [hdir, fileLen, Table.lookup_set_self]
    rfl
  · intro i
    show _ = (f.rotate.dir.lookup (pathOf f.name i)).map List.length
    rw [hdir]
    cases i with
    | zero =>
      rw [pathOf_zero, Table.lookup_set_self]
      rfl
    | succ i =>
      have hne : pathOf f.name (i + 1) ≠ f.name := rotatedPath_ne f.name (i + 1)
      rw [Table.lookup_set_of_ne hne]
      simp only [Rotor.rotated, Nat.succ_ne_zero, if_false, Nat.add_sub_cancel, h.keep]
      split
      · rename_i hle
        rw [hup i hle, h.files]
      · rw [hrest _ fun j hj hp => by have := pathOf_inj hp; omega, h.files]

theorem append (h : Mirrors s f) {d : Dir} (hd : appendTo f.name buf f.dir = some d) :
    (s.append {} buf.length).2 = true ∧ Mirrors (s.append {} buf.length).1
      { f with dir := d, len := saturatingAdd f.len buf.length } := by
  have happend : s.append {} buf.length = ({ s with
      slots := s.slots.grow buf.length
      len := saturatingAdd s.len buf.length }, true) := by
    unfold Rotor.append
    rw [if_pos h.isOpen]
  unfold appendTo at hd
  split at hd
  · cases hd
  rename_i bytes hbytes
  obtain ⟨-, hd⟩ := ite_none_right_eq_some.mp hd
  cases hd
  rw [happend]
  refine ⟨rfl, h.isOpen, h.maxBytes, h.keep, congrArg (saturatingAdd · buf.length) h.len, ?_⟩
  intro i
  show (s.slots.grow buf.length i).map LogFile.size =
    ((Table.set f.dir f.name (some (bytes ++ buf))).lookup (pathOf f.name i)).map List.length
  cases i with
  | zero =>
    have hsize := h.files 0
    rw [pathOf_zero, hbytes] at hsize
    obtain ⟨x, hx, hlen⟩ := map_eq_some_iff.mp hsize
    rw [pathOf_zero, Table.lookup_set_self, grow, if_pos rfl, hx]
    simp [hlen]
  | succ i =>
    have hne : pathOf f.name (i + 1) ≠ f.name := rotatedPath_ne f.name (i + 1)
    rw [Table.lookup_set_of_ne hne, grow, if_neg (Nat.succ_ne_zero i)]
    exact h.files (i + 1)

theorem writeAll (h : Mirrors s f) (hf : f.writeAll buf = some f') :
    (s.writeAll {} buf.length).2 = true ∧ Mirrors (s.writeAll {} buf.length).1 f' := by
  have hrotate : s.shouldRotate buf.length = f.shouldRotate buf.length := by
    rw [Rotor.shouldRotate, RotatingFile.shouldRotate, h.maxBytes, h.len]
  unfold RotatingFile.writeAll at hf
  obtain ⟨d, hd, rfl⟩ := map_eq_some_iff.mp hf
  unfold Rotor.writeAll
  rw [hrotate, Rotor.rotate_works ⟨rfl, rfl, rfl, fun _ _ => rfl, rfl, rfl⟩]
  split
  · rename_i hyes
    rw [if_pos hyes] at hd
    exact h.rotate.append hd
  · rename_i hno
    rw [if_neg hno] at hd
    exact h.append hd

theorem openIn (name : Net.Text) (maxBytes keep : ℕ) :
    Mirrors (.openIn maxBytes keep) (RotatingFile.openIn ∅ name maxBytes keep) := by
  have h := Shelved.openIn name maxBytes keep
  refine ⟨rfl, rfl, rfl, h.len.symm, fun i => ?_⟩
  rw [h.files]
  cases i with
  | zero | succ i => rfl

/-- Record by record, the writer that never fails and `RotatingFile` keep the same files. -/
theorem writeRecords (h : Mirrors s f) {records : List Record}
    (hf : f.writeRecords records = some f') :
    ∃ t, exec Rotor.step s (records.map fun r => (r.length, {})) = some t ∧ Mirrors t f' := by
  induction records generalizing s f with
  | nil =>
    cases hf
    exact ⟨s, rfl, h⟩
  | cons r records ih =>
    obtain ⟨g, hg, hrest⟩ := bind_eq_some_iff.mp hf
    exact ih (h.writeAll hg).2 hrest

end Mirrors

def sixBytes : Rotor := ((Rotor.openIn 10 1).writeAll {} 6).1

theorem sixBytes_sound : sixBytes.Sound :=
  (Rotor.openIn_sound 10 1).writeAll fun h => absurd h (by decide)

/-- A rotation, a write that fails, and then a rotation that cannot open the new file. -/
theorem sixBytes_careful :
    ∃ s, exec Rotor.step sixBytes [(8, {}), (1, { write := some 0 })] = some s ∧
      s.slots 1 = some ⟨0, 6⟩ ∧ s.Careful 8 { opening := .refused } ∧ s.Careful 2 {} := by
  obtain ⟨s, hexec, hslot⟩ : ∃ s, exec Rotor.step sixBytes [(8, {}), (1, { write := some 0 })] =
      some s ∧ s.slots 1 = some ⟨0, 6⟩ := ⟨_, rfl, rfl⟩
  have hreach : ReachableBy Rotor.step Rotor.RotationWorks sixBytes s := by
    have hfirst : ReachableBy Rotor.step Rotor.RotationWorks sixBytes
        (sixBytes.writeAll {} 8).1 :=
      ReachableBy.start.next (a := (8, {}))
        (fun _ => ⟨rfl, rfl, rfl, fun _ _ => rfl, rfl, rfl⟩) rfl
    exact hfirst.next (a := (1, { write := some 0 })) (fun h => absurd h (by decide)) hexec
  exact ⟨s, hexec, hslot, Rotor.careful_while_rotations_work sixBytes_sound hreach _ _,
    Rotor.careful_while_rotations_work sixBytes_sound hreach _ _⟩

/-- A rotation leaves the writer closed: two bytes that would fit are not written although the
file system works again, and eight bytes more make the retry remove the only generation. -/
theorem failed_rotation_not_careful :
    ∃ s, Reachable Rotor.step sixBytes s ∧
      (s.writeAll {} 2).2 = false ∧
      s.Holds 0 ∧ ¬ (s.writeAll {} 8).1.Holds 0 ∧ ¬ s.KeepNewer 0 := by
  have hord := (sixBytes_sound.toOrdered.writeAll { opening := .refused } 8).1
  have hheld : (sixBytes.writeAll { opening := .refused } 8).1.Holds 0 := ⟨1, ⟨0, 6⟩, rfl, rfl⟩
  refine ⟨_, (Reachable.start _).next (a := (8, { opening := .refused })) rfl, rfl, hheld, ?_, ?_⟩
  · rw [(hord.writeAll {} 8).2 0 hheld, not_not]
    exact ⟨⟨rfl, nofun, rfl⟩, ⟨0, 6⟩, rfl, rfl⟩
  · intro hnewer
    have hx : (sixBytes.writeAll { opening := .refused } 8).1.slots 1 = some ⟨0, 6⟩ := rfl
    exact (hord.keepNewer_iff hx).mp hnewer 0 Nat.zero_lt_one rfl

end Alighieri.Runtime
