import Mathlib.Tactic.Basic
import Mathlib.Data.List.Basic

/-!
# The life of one stream between its two ends

An abstract protocol of two parties and two words in flight. A party has a mode and may know the
stream's identifier or not; `leaving` is an open stream whose own CLOSE is under way, and the
Boolean of `closing` says whether a stream had been spawned.

`Talk` is the stream's life up to the first CLOSE. `Phase` lays the closing handshake over it: a
party that has said CLOSE has left at some mode, and the other one still talks to that mode.
-/

namespace Alighieri.Rdp.Dialogue
open List

inductive Mode where
  | idle
  | resolving
  | resolved
  | opening (kept : Bool)
  | opened
  | leaving
  | closing (spawned : Bool)
  | cancelled
  deriving DecidableEq, Repr

inductive Msg where
  | resolve
  | openTo
  | resolveOk
  | openOk
  | openError
  | flow
  | close
  deriving DecidableEq, Repr

variable {v : Mode} {m : Msg} {heard init ms : List Msg} {kept spawned : Bool}

/- What is left of a stream whose OPEN has failed. -/
def Mode.fallback (kept : Bool) : Mode := bif kept then .resolved else .idle

theorem Mode.fallback_cases {a : Mode} (h : a = .fallback kept) : a = .resolved ∨ a = .idle := by
  cases kept
  · exact .inr h
  · exact .inl h

/- The modes in which a party can be told of a stream's end without having caused it. -/
def Mode.talking : Mode → Bool
  | .resolving | .resolved | .opening _ | .opened => true
  | _ => false

/- The modes of a party that has said CLOSE and has not heard the other one's. -/
def Mode.gone : Mode → Bool
  | .leaving | .closing _ => true
  | _ => false

def Mode.rests : Mode → Bool
  | .idle | .cancelled => true
  | _ => false

theorem Mode.talking_apart {m : Mode} (h : m.talking = true) : m.gone ≠ true ∧ m.rests ≠ true := by
  cases m <;> simp_all [Mode.talking, Mode.gone, Mode.rests]

/- The modes in which what the other party says of the stream is or will be taken in. -/
def Mode.hears : Mode → Bool
  | .resolving | .resolved | .opening _ | .opened | .leaving => true
  | _ => false

def Msg.late : Msg → Bool
  | .resolveOk | .openOk | .openError | .flow => true
  | _ => false

def Msg.up : Msg → Bool
  | .resolve | .openTo | .flow | .close => true
  | _ => false

def Flow (ms : List Msg) : Prop := ∀ m ∈ ms, m = .flow

def Mode.hear : Mode → Msg → Option Mode
  | .resolving, .resolveOk => some .resolved
  | .resolving, .openError => some .idle
  | .opening _, .openOk => some .opened
  | .opening kept, .openError => some (.fallback kept)
  | .opened, .flow => some .opened
  | .leaving, .flow => some .leaving
  | .leaving, .close => some .idle
  | .closing _, .close => some .idle
  | .closing spawned, m => if m.late then some (.closing spawned) else none
  | _, _ => none

/- What either party does on its own with an open stream. -/
inductive OwnStep : Mode → Mode → List Msg → Prop where
  | stay (m : Mode) : OwnStep m m []
  | flow : OwnStep .opened .opened [.flow]
  | leave : OwnStep .opened .leaving [.close]
  | report : OwnStep .leaving (.closing true) []

/- A step of the client: its mode and what it knows, what it hears, and what it says. -/
inductive ClientStep : Mode → Bool → List Msg → Mode → Bool → List Msg → Prop where
  | own {c c' : Mode} {said : List Msg} (known : Bool) (h : OwnStep c c' said) :
      ClientStep c known [] c' known said
  | pass (known : Bool) : ClientStep .idle known [] .idle true []
  | ask : ClientStep .idle false [] .resolving true [.resolve]
  | want : ClientStep .idle false [] (.opening false) true [.openTo]
  | wantKept (known : Bool) : ClientStep .resolved known [] (.opening true) known [.openTo]
  | cancelEarly {c : Mode} (known : Bool) (h : c.talking = true) (hc : c ≠ .opened) :
      ClientStep c known [] (.closing false) known [.close]
  | cancelOpened (known : Bool) : ClientStep .opened known [] (.closing true) known [.close]
  | hear {c c' : Mode} (known : Bool) (m : Msg) (h : c.hear m = some c') :
      ClientStep c known [m] c' known []
  | abandon (known : Bool) : ClientStep .resolving known [.resolveOk] (.closing false) known [.close]
  | hearClose {c : Mode} (known : Bool) (h : c.talking = true) :
      ClientStep c known [.close] .idle known [.close]

inductive AgentStep : Mode → Bool → List Msg → Mode → Bool → List Msg → Prop where
  | own {a a' : Mode} {said : List Msg} (known : Bool) (h : OwnStep a a' said) :
      AgentStep a known [] a' known said
  | resolve : AgentStep .idle false [.resolve] .resolving true []
  | refuse {m : Msg} (h : m = .resolve ∨ m = .openTo) :
      AgentStep .idle false [m] .idle true [.openError]
  | connect : AgentStep .idle false [.openTo] (.opening false) true []
  | connectKept (known : Bool) : AgentStep .resolved known [.openTo] (.opening true) known []
  | refuseKept (known : Bool) : AgentStep .resolved known [.openTo] .resolved known [.openError]
  | flow {a : Mode} (known : Bool) (h : a = .opened ∨ a.gone = true) :
      AgentStep a known [.flow] a known []
  | closeStale : AgentStep .idle true [.close] .idle true [.close]
  | closeLast {a : Mode} (known : Bool) (h : a.gone = true) : AgentStep a known [.close] .idle known []
  | closeOpened (known : Bool) : AgentStep .opened known [.close] .idle known [.close]
  | cancel {a : Mode} (known : Bool) (h : a = .resolving ∨ ∃ kept, a = .opening kept) :
      AgentStep a known [.close] .cancelled known [.close]
  | closeResolved (known : Bool) : AgentStep .resolved known [.close] .idle known [.close]
  | closeCancelled (known : Bool) : AgentStep .cancelled known [.close] .cancelled known []
  | finishGone (known : Bool) : AgentStep .cancelled known [] .idle known []
  | resolved (known : Bool) : AgentStep .resolving known [] .resolved known [.resolveOk]
  | unresolved (known : Bool) : AgentStep .resolving known [] .idle known [.openError]
  | opened (kept known : Bool) : AgentStep (.opening kept) known [] .opened known [.openOk]
  | unopened (kept known : Bool) :
      AgentStep (.opening kept) known [] (.fallback kept) known [.openError]

theorem OwnStep.hears {m m' : Mode} {said : List Msg} (h : OwnStep m m' said)
    (hm : m'.hears = true) : m.hears = true := by
  cases h with
  | stay => exact hm
  | flow | leave | report => rfl

theorem Mode.hears_of_hear {c c' : Mode} (h : c.hear m = some c') (hm : c'.hears = true) :
    c.hears = true := by
  cases c with
  | closing => cases m <;> cases h <;> cases hm
  | idle | cancelled => cases m <;> cases h
  | _ => rfl

theorem ClientStep.hears {c c' : Mode} {kc kc' : Bool} {said : List Msg}
    (h : ClientStep c kc heard c' kc' said) (hm : kc' = true → c'.hears = true) (hk : kc = true) :
    c.hears = true := by
  cases h with
  | own known hown => exact hown.hears (hm hk)
  | pass => cases hm rfl
  | ask | want => cases hk
  | wantKept | cancelOpened | abandon => rfl
  | cancelEarly | hearClose => cases hm hk
  | hear known m hh => exact Mode.hears_of_hear hh (hm hk)

theorem AgentStep.hears {a a' : Mode} {ka ka' : Bool} {said : List Msg}
    (h : AgentStep a ka heard a' ka' said) (hm : ka' = true → a'.hears = true) (hk : ka = true) :
    a.hears = true := by
  cases h with
  | own known hown => exact hown.hears (hm hk)
  | resolve | refuse hw | connect => cases hk
  | flow => exact hm hk
  | closeStale => cases hm rfl
  | closeLast | cancel | closeCancelled | finishGone => cases hm hk
  | _ => rfl

/-- The life of a stream before any CLOSE: the modes of the client and of the agent,
whether they know it, and the words on their way up and down. -/
inductive Talk : Mode → Bool → Mode → Bool → List Msg → List Msg → Prop where
  | fresh : Talk .idle false .idle false [] []
  | passed (known : Bool) : Talk .idle true .idle known [] []
  | asked : Talk .resolving true .idle false [.resolve] []
  | resolving : Talk .resolving true .resolving true [] []
  | answered : Talk .resolving true .resolved true [] [.resolveOk]
  | unresolved : Talk .resolving true .idle true [] [.openError]
  | resolved : Talk .resolved true .resolved true [] []
  | wanted {a : Mode} (kept : Bool) (ha : a = .fallback kept) :
      Talk (.opening kept) true a kept [.openTo] []
  | opening (kept : Bool) : Talk (.opening kept) true (.opening kept) true [] []
  | unopened {a : Mode} (kept : Bool) (ha : a = .fallback kept) :
      Talk (.opening kept) true a true [] [.openError]
  | accepted (kept : Bool) {down : List Msg} (hd : Flow down) :
      Talk (.opening kept) true .opened true [] (.openOk :: down)
  | opened {up down : List Msg} (hu : Flow up) (hd : Flow down) :
      Talk .opened true .opened true up down

/- `c` is what a client at mode `v` has become by closing. -/
def Mode.LeftFrom (c v : Mode) : Prop :=
  c = .closing false ∨ (v = .opened ∧ (c = .leaving ∨ c = .closing true))

/-- The life of a stream with its closing handshake. -/
inductive Phase : Mode → Bool → Mode → Bool → List Msg → List Msg → Prop where
  | talk {c a : Mode} {kc ka : Bool} {up down : List Msg} (h : Talk c kc a ka up down) :
      Phase c kc a ka up down
  | clientClosing {c a v : Mode} {kc ka : Bool} {up down : List Msg} (h : Talk v kc a ka up down)
      (hv : v = .idle → ka = true) (hc : c.LeftFrom v) : Phase c kc a ka (up ++ [.close]) down
  | agentClosing {c a : Mode} {kc ka : Bool} {up down : List Msg} (h : Talk c kc .opened ka up down)
      (ha : a.gone = true) : Phase c kc a ka up (down ++ [.close])
  | bothClosing {c a v : Mode} {kc ka : Bool} {up down : List Msg} (h : Talk v kc .opened ka up down)
      (hc : c.LeftFrom v) (ha : a.gone = true) :
      Phase c kc a ka (up ++ [.close]) (down ++ [.close])
  | clientHeard {a : Mode} {up : List Msg} (hu : Flow up) (ha : a.gone = true) :
      Phase .idle true a true (up ++ [.close]) []
  | agentHeard {c a : Mode} {down : List Msg} (hc : c.gone = true)
      (hd : ∀ m ∈ down, m.late = true) (hl : c = .leaving → Flow down) (ha : a.rests = true) :
      Phase c true a true [] (down ++ [.close])
  | finished {a : Mode} (ha : a.rests = true) : Phase .idle true a true [] []

theorem Flow.snoc (h : Flow ms) : Flow (ms ++ [.flow]) := by
  intro m hm
  rcases mem_append.mp hm with hm | hm
  · exact h m hm
  · exact mem_singleton.mp hm

theorem Flow.tail (h : Flow (m :: ms)) : m = .flow ∧ Flow ms :=
  ⟨h m mem_cons_self, fun n hn => h n (mem_cons_of_mem _ hn)⟩

theorem Flow.nil : Flow [] := fun _ hm => by cases hm

theorem Flow.up (h : Flow ms) : ∀ m ∈ ms, m.up = true := by
  intro m hm
  rw [h m hm]
  rfl

theorem Flow.late (h : Flow ms) : ∀ m ∈ ms, m.late = true := by
  intro m hm
  rw [h m hm]
  rfl

namespace Talk

variable {c a : Mode} {kc ka : Bool} {up down : List Msg}

theorem down_late (h : Talk c kc a ka up down) : ∀ m ∈ down, m.late = true := by
  cases h with
  | accepted kept hd =>
    intro m hm
    rcases mem_cons.mp hm with rfl | hm
    · rfl
    · exact hd.late m hm
  | opened hu hd => exact hd.late
  | _ => simp [Msg.late]

theorem up_words (h : Talk c kc a ka up down) : ∀ m ∈ up, m.up = true := by
  cases h with
  | opened hu hd => exact hu.up
  | _ => simp [Msg.up]

theorem up_no_close (h : Talk c kc a ka up down) : Msg.close ∉ up := by
  cases h with
  | opened hu hd => exact fun hm => by cases hu _ hm
  | _ => simp

theorem agent_opened (h : Talk c kc .opened ka up down) :
    kc = true ∧ ka = true ∧ Flow up ∧
    ((∃ kept down', c = .opening kept ∧ up = [] ∧ down = .openOk :: down' ∧ Flow down') ∨
      (c = .opened ∧ Flow down)) := by
  cases h with
  | wanted kept ha | unopened kept ha => rcases Mode.fallback_cases ha with h | h <;> cases h
  | accepted kept hd => exact ⟨rfl, rfl, .nil, .inl ⟨kept, _, rfl, rfl, rfl, hd⟩⟩
  | opened hu hd => exact ⟨rfl, rfl, hu, .inr ⟨rfl, hd⟩⟩

theorem client_hears (h : Talk c kc a ka up (m :: down)) :
    ∃ c', c.hear m = some c' ∧ Talk c' kc a ka up down ∧ (c' = .idle → ka = true) ∧
      (c = .opened → m = .flow ∧ c' = .opened) := by
  cases h with
  | answered => exact ⟨_, rfl, .resolved, by simp, by simp⟩
  | unresolved => exact ⟨_, rfl, .passed true, by simp, by simp⟩
  | unopened kept ha =>
    refine ⟨_, rfl, ?_, by simp, by simp⟩
    cases kept <;> cases ha
    · exact .passed true
    · exact .resolved
  | accepted kept hd => exact ⟨_, rfl, .opened .nil hd, by simp, by simp⟩
  | opened hu hd =>
    obtain ⟨rfl, hd'⟩ := hd.tail
    exact ⟨_, rfl, .opened hu hd', by simp, by simp⟩

theorem client_flow (h : Talk .opened kc a ka up down) : Talk .opened kc a ka (up ++ [.flow]) down := by
  cases h with
  | opened hu hd => exact .opened hu.snoc hd

theorem agent_flow (h : Talk c kc .opened ka up down) : Talk c kc .opened ka up (down ++ [.flow]) := by
  cases h with
  | wanted kept ha | unopened kept ha => rcases Mode.fallback_cases ha with h | h <;> cases h
  | accepted kept hd => exact .accepted kept hd.snoc
  | opened hu hd => exact .opened hu hd.snoc

theorem agent_takes_flow (h : Talk c kc a ka (.flow :: up) down) :
    a = .opened ∧ Talk c kc a ka up down := by
  cases h with
  | opened hu hd => exact ⟨rfl, .opened hu.tail.2 hd⟩

theorem agent_takes_resolve (h : Talk c kc a ka (.resolve :: up) down) :
    a = .idle ∧ ka = false ∧ Talk c kc .resolving true up down ∧
      Talk c kc .idle true up (down ++ [.openError]) := by
  cases h with
  | asked => exact ⟨rfl, rfl, .resolving, .unresolved⟩
  | opened hu hd => cases hu.tail.1

theorem agent_takes_open (h : Talk c kc a ka (.openTo :: up) down) :
    ∃ kept, c = .opening kept ∧ a = .fallback kept ∧ ka = kept ∧ up = [] ∧ down = [] ∧
      Talk c kc (.opening kept) true up down ∧ Talk c kc a true up (down ++ [.openError]) := by
  cases h with
  | wanted kept ha => exact ⟨_, rfl, ha, rfl, rfl, rfl, .opening _, .unopened _ ha⟩
  | opened hu hd => cases hu.tail.1

theorem agent_resolved (h : Talk c kc .resolving ka up down) :
    Talk c kc .resolved ka up (down ++ [.resolveOk]) ∧
      Talk c kc .idle ka up (down ++ [.openError]) := by
  cases h with
  | resolving => exact ⟨.answered, .unresolved⟩
  | wanted kept ha | unopened kept ha => rcases Mode.fallback_cases ha with h | h <;> cases h

theorem agent_opens (h : Talk c kc (.opening kept) ka up down) :
    Talk c kc .opened ka up (down ++ [.openOk]) ∧
      Talk c kc (.fallback kept) ka up (down ++ [.openError]) := by
  cases h with
  | opening => exact ⟨.accepted kept .nil, .unopened kept rfl⟩
  | wanted kept ha | unopened kept ha => rcases Mode.fallback_cases ha with h | h <;> cases h

theorem agent_passes (h : Talk c true .idle ka up down)
    (hup : ∀ m ∈ up, m ≠ .resolve ∧ m ≠ .openTo) : Talk c true .idle true up down := by
  cases h with
  | passed => exact .passed true
  | asked => exact absurd rfl (hup .resolve (by simp)).1
  | unresolved => exact .unresolved
  | wanted => exact absurd rfl (hup .openTo (by simp)).2
  | unopened kept ha => exact .unopened kept ha

theorem client_idle (h : Talk .idle kc a ka up down) : a = .idle ∧ up = [] ∧ down = [] ∧
    (kc = false → ka = false) := by
  cases h with
  | fresh => exact ⟨rfl, rfl, rfl, fun _ => rfl⟩
  | passed => exact ⟨rfl, rfl, rfl, fun hk => by cases hk⟩

theorem client_opened (h : Talk .opened kc a ka up down) : Flow down := by
  cases h with
  | opened hu hd => exact hd

theorem agent_talks (h : Talk c kc a ka up down) : a = .idle ∨ a.talking = true := by
  cases h with
  | wanted kept ha | unopened kept ha =>
    rcases Mode.fallback_cases ha with rfl | rfl <;> simp [Mode.talking]
  | _ => simp [Mode.talking]

theorem settled (h : Talk c kc a ka [] down) (hi : c = .idle → ka = true) :
    kc = true ∧ ka = true := by
  cases h with
  | fresh => exact absurd (hi rfl) (by simp)
  | passed => exact ⟨rfl, hi rfl⟩
  | _ => exact ⟨rfl, rfl⟩

end Talk

theorem head_of_close (h : m :: ms = init ++ [.close]) :
    (init = [] ∧ m = .close ∧ ms = []) ∨ ∃ rest, init = m :: rest ∧ ms = rest ++ [.close] := by
  cases init with
  | nil =>
    cases h
    exact .inl ⟨rfl, rfl, rfl⟩
  | cons n rest =>
    cases h
    exact .inr ⟨rest, rfl, rfl⟩

theorem tail_of_close (h : m :: ms = init ++ [.close]) (hm : m ≠ .close) :
    ∃ rest, init = m :: rest ∧ ms = rest ++ [.close] :=
  (head_of_close h).resolve_left fun hc => hm hc.2.1

theorem Mode.LeftFrom.gone {c : Mode} (h : c.LeftFrom v) : c.gone = true := by
  rcases h with rfl | ⟨-, rfl | rfl⟩ <;> rfl

theorem Mode.hear_closing (h : m.late = true) :
    Mode.hear (.closing spawned) m = some (.closing spawned) := by
  cases m <;> first | rfl | cases h

theorem Mode.LeftFrom.flow {c a : Mode} {kc ka : Bool} {up down : List Msg} (hc : c.LeftFrom v)
    (h : Talk v kc a ka up down) (hl : c = .leaving) : Flow down := by
  rcases hc with hf | ⟨rfl, -⟩
  · rw [hl] at hf
    cases hf
  · exact h.client_opened

theorem Mode.LeftFrom.hear {c v' : Mode} (h : c.LeftFrom v) (hm : m.late = true)
    (ho : v = .opened → m = .flow ∧ v' = .opened) : c.hear m = some c ∧ c.LeftFrom v' := by
  rcases h with rfl | ⟨hv, rfl | rfl⟩
  · exact ⟨hear_closing hm, .inl rfl⟩
  · obtain ⟨rfl, hv'⟩ := ho hv
    exact ⟨rfl, .inr ⟨hv', .inl rfl⟩⟩
  · exact ⟨hear_closing hm, .inr ⟨(ho hv).2, .inr rfl⟩⟩

theorem Mode.hear_close {c c' : Mode} (h : c.hear .close = some c') : c.gone = true ∧ c' = .idle := by
  cases c with
  | leaving | closing => exact ⟨rfl, (Option.some.inj h).symm⟩
  | _ => cases h

namespace Phase

variable {c c' a a' : Mode} {kc kc' ka ka' : Bool} {up down said : List Msg}

theorem client_takes (h : Phase c kc a ka up (m :: down)) :
    (∃ c', c.hear m = some c' ∧ Phase c' kc a ka up down) ∨
    (m = .close ∧ c = .opened ∧ Phase .idle kc a ka (up ++ [.close]) down) := by
  generalize hw : m :: down = word at h
  cases h with
  | talk h =>
    subst hw
    obtain ⟨c', hh, ht, -, -⟩ := h.client_hears
    exact .inl ⟨c', hh, .talk ht⟩
  | clientClosing h hv hc =>
    subst hw
    have hlate := h.down_late m mem_cons_self
    obtain ⟨v', -, ht, hi, ho⟩ := h.client_hears
    obtain ⟨hh, hc'⟩ := hc.hear hlate ho
    exact .inl ⟨c, hh, .clientClosing ht hi hc'⟩
  | agentClosing h ha =>
    rcases head_of_close hw with ⟨rfl, rfl, rfl⟩ | ⟨rest, rfl, rfl⟩
    · -- the last word of the agent finds the client at an open stream
      obtain ⟨rfl, rfl, hu, ⟨kept, down', -, -, hd, -⟩ | ⟨rfl, -⟩⟩ := h.agent_opened
      · cases hd
      · exact .inr ⟨rfl, rfl, .clientHeard hu ha⟩
    · obtain ⟨c', hh, ht, -, -⟩ := h.client_hears
      exact .inl ⟨c', hh, .agentClosing ht ha⟩
  | bothClosing h hc ha =>
    rcases head_of_close hw with ⟨rfl, rfl, rfl⟩ | ⟨rest, rfl, rfl⟩
    · obtain ⟨rfl, rfl, hu, -⟩ := h.agent_opened
      refine .inl ⟨.idle, ?_, .clientHeard hu ha⟩
      rcases hc with rfl | ⟨-, rfl | rfl⟩ <;> rfl
    · have hlate := h.down_late m mem_cons_self
      obtain ⟨v', -, ht, hi, ho⟩ := h.client_hears
      obtain ⟨hh, hc'⟩ := hc.hear hlate ho
      exact .inl ⟨c, hh, .bothClosing ht hc' ha⟩
  | clientHeard | finished => cases hw
  | agentHeard hc hd hl ha =>
    rcases head_of_close hw with ⟨rfl, rfl, rfl⟩ | ⟨rest, rfl, rfl⟩
    · refine .inl ⟨.idle, ?_, .finished ha⟩
      cases c <;> first | rfl | cases hc
    · have hd' := fun n hn => hd n (mem_cons_of_mem _ hn)
      cases c with
      | leaving =>
        obtain ⟨rfl, hf⟩ := (hl rfl).tail
        exact .inl ⟨.leaving, rfl, .agentHeard hc hd' (fun _ => hf) ha⟩
      | closing =>
        have hlate := hd m mem_cons_self
        exact .inl ⟨_, Mode.hear_closing hlate, .agentHeard hc hd' (fun hn => by cases hn) ha⟩
      | _ => cases hc

theorem up_words (h : Phase c kc a ka up down) : ∀ m ∈ up, m.up = true := by
  have hsnoc : ∀ {ms : List Msg}, (∀ m ∈ ms, m.up = true) → ∀ m ∈ ms ++ [.close], m.up = true := by
    intro ms hms m hm
    rcases mem_append.mp hm with hm | hm
    · exact hms m hm
    · rw [mem_singleton.mp hm]
      rfl
  cases h with
  | talk h | agentClosing h ha => exact h.up_words
  | clientClosing h | bothClosing h => exact hsnoc h.up_words
  | clientHeard hu ha => exact hsnoc hu.up
  | agentHeard | finished => simp

theorem client_own (h : Phase c kc a ka up down) (hs : OwnStep c c' said) :
    Phase c' kc a ka (up ++ said) down := by
  cases hs with
  | stay => simpa using h
  | flow =>
    cases h with
    | talk h => exact .talk h.client_flow
    | clientClosing h hv hc | bothClosing h hc ha => cases hc.gone
    | agentClosing h ha => exact .agentClosing h.client_flow ha
    | agentHeard hc => cases hc
  | leave =>
    cases h with
    | talk h => exact .clientClosing h (by simp) (.inr ⟨rfl, .inl rfl⟩)
    | clientClosing h hv hc | bothClosing h hc ha => cases hc.gone
    | agentClosing h ha => exact .bothClosing h (.inr ⟨rfl, .inl rfl⟩) ha
    | agentHeard hc => cases hc
  | report =>
    rw [append_nil]
    have hleft : ∀ {v : Mode}, Mode.LeftFrom .leaving v → Mode.LeftFrom (.closing true) v := by
      rintro v (hf | ⟨hv, -⟩)
      · cases hf
      · exact .inr ⟨hv, .inr rfl⟩
    cases h with
    | talk h | agentClosing h ha => cases h
    | clientClosing h hv hc => exact .clientClosing h hv (hleft hc)
    | bothClosing h hc ha => exact .bothClosing h (hleft hc) ha
    | agentHeard hc hd hl ha => exact .agentHeard rfl hd (fun hn => by cases hn) ha

theorem client_cancels (h : Phase c kc a ka up down) (hc : c.talking = true)
    (hs : spawned = true → c = .opened) :
    Phase (.closing spawned) kc a ka (up ++ [.close]) down := by
  have hleft : Mode.LeftFrom (.closing spawned) c := by
    cases spawned
    · exact .inl rfl
    · exact .inr ⟨hs rfl, .inr rfl⟩
  cases h with
  | talk h =>
    refine .clientClosing h (fun hi => ?_) hleft
    rw [hi] at hc
    cases hc
  | clientClosing h hv hl | bothClosing h hl ha => rcases hl with rfl | ⟨-, rfl | rfl⟩ <;> cases hc
  | agentClosing h ha => exact .bothClosing h hleft ha
  | clientHeard | finished => cases hc
  | agentHeard hg => exact absurd hg (Mode.talking_apart hc).1

theorem client_fresh (h : Phase .idle false a ka up down) :
    a = .idle ∧ ka = false ∧ up = [] ∧ down = [] := by
  cases h with
  | talk h =>
    obtain ⟨ha, hu, hd, hk⟩ := h.client_idle
    exact ⟨ha, hk rfl, hu, hd⟩
  | clientClosing h hv hc | bothClosing h hc ha => cases hc.gone
  | agentClosing h ha => cases h.agent_opened.1

theorem client_resolved (h : Phase .resolved kc a ka up down) :
    a = .resolved ∧ kc = true ∧ ka = true ∧ up = [] ∧ down = [] := by
  cases h with
  | talk h =>
    cases h
    exact ⟨rfl, rfl, rfl, rfl, rfl⟩
  | clientClosing h hv hc | bothClosing h hc ha => cases hc.gone
  | agentClosing h ha => cases h
  | agentHeard hc => cases hc

theorem client_step (h : Phase c kc a ka up (heard ++ down))
    (hs : ClientStep c kc heard c' kc' said) : Phase c' kc' a ka (up ++ said) down := by
  cases hs with
  | own known hown => exact h.client_own hown
  | pass =>
    rw [append_nil]
    cases kc with
    | true => exact h
    | false =>
      obtain ⟨rfl, rfl, rfl, rfl⟩ := client_fresh h
      exact .talk (.passed false)
  | ask | want =>
    obtain ⟨rfl, rfl, rfl, rfl⟩ := client_fresh h
    first | exact .talk .asked | exact .talk (.wanted false rfl)
  | wantKept =>
    obtain ⟨rfl, rfl, rfl, rfl, rfl⟩ := client_resolved h
    exact .talk (.wanted true rfl)
  | cancelEarly known ht hc => exact client_cancels h ht (fun hf => by cases hf)
  | cancelOpened => exact client_cancels h rfl (fun _ => rfl)
  | hear known m hh =>
    rw [append_nil]
    rcases client_takes h with ⟨c'', hh', hp⟩ | ⟨rfl, rfl, -⟩
    · rw [hh] at hh'
      cases hh'
      exact hp
    · cases hh
  | abandon =>
    rcases client_takes h with ⟨c'', hh', hp⟩ | ⟨hm, -, -⟩
    · cases hh'
      exact client_cancels hp rfl (fun hf => by cases hf)
    · cases hm
  | hearClose known ht =>
    rcases client_takes h with ⟨c'', hh', -⟩ | ⟨-, -, hp⟩
    · exact absurd (Mode.hear_close hh').1 (Mode.talking_apart ht).1
    · exact hp

/- How a talking agent sees the client: as the mode it is at, or the one it has left. -/
def View (c v : Mode) (up up' : List Msg) : Prop :=
  (c = v ∧ up = up') ∨ (c.LeftFrom v ∧ up = up' ++ [.close])

theorem View.phase {up' : List Msg} (hw : View c v up up') (hv : v ≠ .idle)
    (h : Talk v kc a ka up' down) : Phase c kc a ka up down := by
  rcases hw with ⟨rfl, rfl⟩ | ⟨hc, rfl⟩
  · exact .talk h
  · exact .clientClosing h (fun hi => absurd hi hv) hc

theorem agent_view (h : Phase c kc a ka up down) (ha : a.talking = true) :
    ∃ v up', v ≠ .idle ∧ View c v up up' ∧ Talk v kc a ka up' down := by
  have hne : ∀ {v : Mode} {up' : List Msg}, Talk v kc a ka up' down → v ≠ .idle := by
    rintro v up' ht rfl
    rw [ht.client_idle.1] at ha
    cases ha
  obtain ⟨hgone, hover⟩ := Mode.talking_apart ha
  cases h with
  | talk h => exact ⟨c, up, hne h, .inl ⟨rfl, rfl⟩, h⟩
  | clientClosing h hv hc => exact ⟨_, _, hne h, .inr ⟨hc, rfl⟩, h⟩
  | agentClosing h hg | bothClosing h hc hg | clientHeard hu hg => exact absurd hg hgone
  | agentHeard hc hd hl ho | finished ho => exact absurd ho hover

theorem agent_setup (h : Phase c kc a ka (m :: up) down) (hm : m = .resolve ∨ m = .openTo) :
    ∃ v up', v ≠ .idle ∧ View c v up up' ∧ Talk v kc a ka (m :: up') down := by
  have hne : ∀ {v : Mode} {up' : List Msg}, Talk v kc a ka (m :: up') down → v ≠ .idle := by
    rintro v up' ht rfl
    cases ht.client_idle.2.1
  have hflow : ∀ {ms : List Msg}, ¬ Flow (m :: ms) := by
    intro ms hf
    rw [hf.tail.1] at hm
    rcases hm with hm | hm <;> cases hm
  have hclose : m ≠ .close := by
    rintro rfl
    rcases hm with hm | hm <;> cases hm
  generalize hw : m :: up = word at h
  cases h with
  | talk h =>
    subst hw
    exact ⟨c, up, hne h, .inl ⟨rfl, rfl⟩, h⟩
  | clientClosing h hv hc =>
    obtain ⟨rest, rfl, rfl⟩ := tail_of_close hw hclose
    exact ⟨_, rest, hne h, .inr ⟨hc, rfl⟩, h⟩
  | agentClosing h ha =>
    subst hw
    exact absurd h.agent_opened.2.2.1 hflow
  | bothClosing h =>
    obtain ⟨rest, rfl, rfl⟩ := tail_of_close hw hclose
    exact absurd h.agent_opened.2.2.1 hflow
  | clientHeard hu ha =>
    obtain ⟨rest, rfl, rfl⟩ := tail_of_close hw hclose
    exact absurd hu hflow
  | agentHeard | finished => cases hw

theorem agent_hears_flow (h : Phase c kc a ka (.flow :: up) down) :
    (a = .opened ∨ a.gone = true) ∧ Phase c kc a ka up down := by
  generalize hw : Msg.flow :: up = word at h
  cases h with
  | talk h =>
    subst hw
    exact ⟨.inl h.agent_takes_flow.1, .talk h.agent_takes_flow.2⟩
  | clientClosing h hv hc =>
    obtain ⟨rest, rfl, rfl⟩ := tail_of_close hw (by simp)
    exact ⟨.inl h.agent_takes_flow.1, .clientClosing h.agent_takes_flow.2 hv hc⟩
  | agentClosing h ha =>
    subst hw
    exact ⟨.inr ha, .agentClosing h.agent_takes_flow.2 ha⟩
  | bothClosing h hc ha =>
    obtain ⟨rest, rfl, rfl⟩ := tail_of_close hw (by simp)
    exact ⟨.inr ha, .bothClosing h.agent_takes_flow.2 hc ha⟩
  | clientHeard hu ha =>
    obtain ⟨rest, rfl, rfl⟩ := tail_of_close hw (by simp)
    exact ⟨.inr ha, .clientHeard hu.tail.2 ha⟩
  | agentHeard | finished => cases hw

theorem agent_hears_close (h : Phase c kc a ka (.close :: up) down) :
    (a.gone = true ∧ Phase c kc .idle ka up down) ∨
    ((a = .idle ∨ a.talking = true) ∧ ka = true ∧
      ∀ a', a'.rests = true → Phase c kc a' ka up (down ++ [.close])) := by
  generalize hw : Msg.close :: up = word at h
  cases h with
  | talk h | agentClosing h ha =>
    subst hw
    exact absurd mem_cons_self h.up_no_close
  | clientClosing h hv hc =>
    rcases head_of_close hw with ⟨rfl, -, rfl⟩ | ⟨rest, rfl, rfl⟩
    · obtain ⟨rfl, rfl⟩ := h.settled hv
      exact .inr ⟨h.agent_talks, rfl, fun a' ha' => .agentHeard hc.gone h.down_late (hc.flow h) ha'⟩
    · exact absurd mem_cons_self h.up_no_close
  | bothClosing h hc ha =>
    rcases head_of_close hw with ⟨rfl, -, rfl⟩ | ⟨rest, rfl, rfl⟩
    · obtain ⟨rfl, rfl, -, -⟩ := h.agent_opened
      exact .inl ⟨ha, .agentHeard hc.gone h.down_late (hc.flow h) rfl⟩
    · exact absurd mem_cons_self h.up_no_close
  | clientHeard hu ha =>
    rcases head_of_close hw with ⟨rfl, -, rfl⟩ | ⟨rest, rfl, rfl⟩
    · exact .inl ⟨ha, .finished rfl⟩
    · cases hu.tail.1
  | agentHeard | finished => cases hw

theorem agent_own (h : Phase c kc a ka up down) (hs : OwnStep a a' said) :
    Phase c kc a' ka up (down ++ said) := by
  cases hs with
  | stay => simpa using h
  | flow =>
    obtain ⟨v, up', hv, hw, ht⟩ := agent_view h rfl
    exact hw.phase hv ht.agent_flow
  | leave =>
    obtain ⟨v, up', hv, hw, ht⟩ := agent_view h rfl
    rcases hw with ⟨rfl, rfl⟩ | ⟨hc, rfl⟩
    · exact .agentClosing ht rfl
    · exact .bothClosing ht hc rfl
  | report =>
    rw [append_nil]
    cases h with
    | talk h | clientClosing h => rcases h.agent_talks with hm | hm <;> cases hm
    | agentClosing h ha => exact .agentClosing h rfl
    | bothClosing h hc ha => exact .bothClosing h hc rfl
    | clientHeard hu ha => exact .clientHeard hu rfl
    | agentHeard hc hd hl ha | finished ha => cases ha

theorem agent_pass (h : Phase c true .idle ka up down) (hup : ∀ m ∈ up, m ≠ .resolve ∧ m ≠ .openTo) :
    Phase c true .idle true up down := by
  cases h with
  | talk h => exact .talk (h.agent_passes hup)
  | clientClosing h hv hc =>
    exact .clientClosing (h.agent_passes fun m hm => hup m (mem_append_left _ hm))
      (fun _ => rfl) hc
  | agentClosing h ha | bothClosing h hc ha | clientHeard hu ha => cases ha
  | agentHeard hc hd hl ha => exact .agentHeard hc hd hl ha
  | finished ha => exact .finished ha

theorem agent_step (h : Phase c kc a ka (heard ++ up) down)
    (hs : AgentStep a ka heard a' ka' said) : Phase c kc a' ka' up (down ++ said) := by
  have hack : ∀ {a1 : Mode}, a.gone ≠ true → a1.rests = true →
      Phase c kc a ka (.close :: up) down → Phase c kc a1 ka up (down ++ [.close]) := by
    intro a1 hng ha1 h
    rcases agent_hears_close h with ⟨hg, -⟩ | ⟨-, -, hp⟩
    · exact absurd hg hng
    · exact hp a1 ha1
  cases hs with
  | own known hown => exact agent_own h hown
  | resolve =>
    obtain ⟨v, up', hv, hw, ht⟩ := agent_setup h (.inl rfl)
    rw [append_nil]
    exact hw.phase hv ht.agent_takes_resolve.2.2.1
  | refuse hm =>
    obtain ⟨v, up', hv, hw, ht⟩ := agent_setup h hm
    rcases hm with rfl | rfl
    · exact hw.phase hv ht.agent_takes_resolve.2.2.2
    · obtain ⟨kept, -, -, -, -, -, -, ht'⟩ := ht.agent_takes_open
      exact hw.phase hv ht'
  | connect =>
    obtain ⟨v, up', hv, hw, ht⟩ := agent_setup h (.inr rfl)
    obtain ⟨kept, -, -, rfl, -, -, ht', -⟩ := ht.agent_takes_open
    rw [append_nil]
    exact hw.phase hv ht'
  | connectKept =>
    obtain ⟨v, up', hv, hw, ht⟩ := agent_setup h (.inr rfl)
    obtain ⟨kept, -, ha, rfl, -, -, ht', -⟩ := ht.agent_takes_open
    rw [append_nil]
    cases ka with
    | true => exact hw.phase hv ht'
    | false => cases ha
  | refuseKept =>
    obtain ⟨v, up', hv, hw, ht⟩ := agent_setup h (.inr rfl)
    obtain ⟨kept, -, ha, rfl, -, -, -, ht'⟩ := ht.agent_takes_open
    cases ka with
    | true => exact hw.phase hv ht'
    | false => cases ha
  | flow =>
    rw [append_nil]
    exact (agent_hears_flow h).2
  | closeStale | closeOpened | closeResolved => exact hack (by simp [Mode.gone]) rfl h
  | closeLast known hg =>
    rw [append_nil]
    rcases agent_hears_close h with ⟨-, hp⟩ | ⟨rfl | ht, -, -⟩
    · exact hp
    · cases hg
    · exact absurd hg (Mode.talking_apart ht).1
  | cancel known ha =>
    refine hack ?_ rfl h
    rcases ha with rfl | ⟨kept, rfl⟩ <;> simp [Mode.gone]
  | closeCancelled =>
    rcases agent_hears_close h with ⟨hg, -⟩ | ⟨hm | hm, -, -⟩
    · cases hg
    · cases hm
    · cases hm
  | finishGone =>
    rw [append_nil]
    cases h with
    | talk h | clientClosing h => rcases h.agent_talks with hm | hm <;> cases hm
    | agentClosing h ha | bothClosing h hc ha | clientHeard hu ha => cases ha
    | agentHeard hc hd hl ha => exact .agentHeard hc hd hl rfl
    | finished ha => exact .finished rfl
  | resolved | unresolved =>
    obtain ⟨v, up', hv, hw, ht⟩ := agent_view h rfl
    first | exact hw.phase hv ht.agent_resolved.1 | exact hw.phase hv ht.agent_resolved.2
  | opened | unopened =>
    obtain ⟨v, up', hv, hw, ht⟩ := agent_view h rfl
    first | exact hw.phase hv ht.agent_opens.1 | exact hw.phase hv ht.agent_opens.2

theorem agent_takes (h : Phase c kc a ka (m :: up) down) :
    (m = .resolve ∧ a = .idle ∧ ka = false) ∨
    (m = .openTo ∧ ((a = .idle ∧ ka = false) ∨ a = .resolved)) ∨
    (m = .flow ∧ (a = .opened ∨ a.gone = true)) ∨
    (m = .close ∧ ((a = .idle ∧ ka = true) ∨ a.talking = true ∨ a.gone = true)) := by
  cases m with
  | resolve =>
    obtain ⟨v, up', hv, hw, ht⟩ := agent_setup h (.inl rfl)
    exact .inl ⟨rfl, ht.agent_takes_resolve.1, ht.agent_takes_resolve.2.1⟩
  | openTo =>
    obtain ⟨v, up', hv, hw, ht⟩ := agent_setup h (.inr rfl)
    obtain ⟨kept, -, ha, rfl, -⟩ := ht.agent_takes_open
    refine .inr (.inl ⟨rfl, ?_⟩)
    cases ka with
    | true => exact .inr ha
    | false => exact .inl ⟨ha, rfl⟩
  | flow => exact .inr (.inr (.inl ⟨rfl, (agent_hears_flow h).1⟩))
  | close =>
    refine .inr (.inr (.inr ⟨rfl, ?_⟩))
    rcases agent_hears_close h with ⟨hg, -⟩ | ⟨hi | ht, hk, -⟩
    · exact .inr (.inr hg)
    · exact .inl ⟨hi, hk⟩
    · exact .inr (.inl ht)
  | _ => exact absurd (h.up_words _ mem_cons_self) (by simp [Msg.up])

/- With nothing under way the parties agree, or the agent has not seen its operation end yet. -/
theorem quiet (h : Phase c kc a ka up down) (hu : up = []) (hd : down = []) :
    c = a ∨ (c = .idle ∧ a = .cancelled) := by
  cases h with
  | talk h =>
    cases h with
    | asked | wanted => cases hu
    | answered | unresolved | unopened | accepted => cases hd
    | _ => exact .inl rfl
  | clientClosing | bothClosing | clientHeard => exact absurd hu (by simp)
  | agentClosing | agentHeard => exact absurd hd (by simp)
  | finished ha =>
    cases a with
    | idle => exact .inl rfl
    | cancelled => exact .inr ⟨rfl, rfl⟩
    | _ => cases ha

end Phase

end Alighieri.Rdp.Dialogue
