import Alighieri.Rdp.Slots

/-!
# Who owns the permit of a stream

The ledger of one stream: its state at the driver, its caller, and the commands about it. As long
as no caller lets go of a permit while its stream is with the driver, every stream in the map and
every command that is about to create one has a permit behind it.
-/

namespace Alighieri.Rdp
open Net Lts Caller

variable {stream : Option Stream} {r : ClientHandled} {bound : ℕ}

structure Ledger where
  state : Option ClientStreamState
  caller : Option Caller
  queued : List ClientCommand

variable {id : ℕ} {q q' : List ClientCommand} {c c' : Caller} {caller : Option Caller}
  {candidates : List SocketAddr} {permit : Bool} {left : Option Caller × Bool}
  {address : SocketAddr} {x : Ledger} {limits : NegotiatedLimits} {cmd : ClientCommand}

def Handle.ledger (h : Handle) (id : ℕ) : Ledger where
  state := h.client.ep.streams.lookup id
  caller := h.callers.lookup id
  queued := h.client.commands.filter fun cmd => decide (Client.commandId cmd = id)

def Closes (id : ℕ) (q : List ClientCommand) : Prop := ∀ cmd ∈ q, cmd = .close id

/- Callers that hold no permit and expect none. -/
def Caller.gone : Caller → Bool
  | .target _ permit finished => !permit && finished
  | .openingIp (some (.opened _)) | .opening _ (some (.opened _)) => true
  | _ => false

def Caller.settled : Caller → Bool
  | .resolving (some (.resolveFailed _)) => true
  | .openingIp (some (.opened _)) | .openingIp (some (.openFailed _ _)) => true
  | .target _ _ finished => finished
  | .opening _ (some (.opened _)) => true
  | .opening _ (some (.openFailed error _)) => !error.isRemote
  | _ => false

/- Callers that hold the permit of a resolved stream. -/
inductive Caller.Keeps (candidates : List SocketAddr) : Caller → Prop where
  | answered : Keeps candidates (.resolving (some (.resolved candidates)))
  | target : Keeps candidates (.target candidates true false)
  | offering {address : SocketAddr} (mem : address ∈ candidates)
      (canonical : canonicalizeAddress address = address) :
      Keeps candidates (.offering candidates address true)
  | refused {error : MuxError} (remote : error.isRemote = true) :
      Keeps candidates (.opening candidates (some (.openFailed error true)))

/- The caller waits as `c`, or it has given up and may have sent Close. -/
def Attends (id : ℕ) (c : Caller) (caller : Option Caller) (q : List ClientCommand) : Prop :=
  (caller = some c ∧ q = []) ∨ (caller.all gone = true ∧ Closes id q)

def Caller.waiting : Option (List SocketAddr) → Caller
  | none => .openingIp none
  | some candidates => .opening candidates none

/-- The permit of a stream is with its caller, in a command or in its state. -/
inductive Backed (id : ℕ) : Ledger → Prop where
  | asked (hostname : Text) (port : ℕ) :
      Backed id ⟨none, some (.resolving none), [.resolve id hostname port]⟩
  | resolving (port : ℕ) : Backed id ⟨some (.resolving port), some (.resolving none), []⟩
  | held {state : Option ClientStreamState} {c : Caller} {candidates : List SocketAddr}
      (keeps : c.Keeps candidates) (state_eq : state = none ∨ state = some (.resolved candidates)) :
      Backed id ⟨state, some c, []⟩
  | sent {state : Option ClientStreamState} {caller : Option Caller} {q : List ClientCommand}
      {candidates : List SocketAddr} {address : SocketAddr} (mem : address ∈ candidates)
      (state_eq : state = none ∨ state = some (.resolved candidates))
      (attends : Attends id (.opening candidates none) caller q) :
      Backed id ⟨state, caller, .openTo id address true :: q⟩
  | askedIp {caller : Option Caller} {q : List ClientCommand} (address : SocketAddr)
      (attends : Attends id (.openingIp none) caller q) :
      Backed id ⟨none, caller, .openIp id address :: q⟩
  | opening {candidates : Option (List SocketAddr)} {caller : Option Caller}
      {q : List ClientCommand} (attends : Attends id (.waiting candidates) caller q) :
      Backed id ⟨some (.opening candidates true), caller, q⟩
  | owned {state : ClientStreamState} {caller : Option Caller} {q : List ClientCommand}
      (state_eq : state = .opened true ∨ state = .closing true)
      (gone : caller.all gone = true) (closes : Closes id q) :
      Backed id ⟨some state, caller, q⟩
  | free {caller : Option Caller} {q : List ClientCommand} (settled : caller.all settled = true)
      (closes : Closes id q) : Backed id ⟨none, caller, q⟩

def Caller.mails (reply : Option Reply) (caller : Option Caller) : Option Caller :=
  match reply with
  | none => caller
  | some r => caller.map (mailed r)

/- A Close the guard may have sent. -/
def Guarded (id : ℕ) (armed : Bool) (q q' : List ClientCommand) : Prop :=
  q' = q ∨ (armed = true ∧ q' = q ++ [.close id])

/- A caller that gives up lets its permit go; nothing is left that needs it. -/
def Ledger.Settled (x : Ledger) : Prop :=
  x.state = none ∧ ∀ cmd ∈ x.queued, ∃ id, cmd = .close id

/-- What a step does to one ledger, when nobody lets go of a permit in use; `bound`
is the next identifier after it. -/
inductive Ledger.Move (limits : NegotiatedLimits) (bound id : ℕ) (x : Ledger) :
    Ledger → Prop where
  | stay : Move limits bound id x x
  | command {full : Bool} {stream : Option Stream} {cmd : ClientCommand} {r : ClientHandled}
      {rest : List ClientCommand} (queued : x.queued = cmd :: rest)
      (h : handleClientCommand full ⟨x.state, stream⟩ cmd = .ok r) :
      Move limits bound id x ⟨r.entry.state, mails r.reply x.caller, rest⟩
  | frame {stream : Option Stream} {f : Frame} {r : ClientHandled}
      (heard : ∀ code diagnostic candidates permit, f = .openError f.streamId code diagnostic →
        x.state = some (.opening (some candidates) permit) → x.caller.any waits = true)
      (h : handleClientFrame limits (x.caller.any waits) ⟨x.state, stream⟩ f = .ok r) :
      Move limits bound id x ⟨r.entry.state, mails r.reply x.caller, x.queued⟩
  | event (stream : Option Stream) (w : WorkerEvent) :
      Move limits bound id x { x with state := (clientWorkerEvent ⟨x.state, stream⟩ w).state }
  | ask (hostname : Text) (port : ℕ) (fresh : x = ⟨none, none, []⟩) (below : id < bound) :
      Move limits bound id x ⟨none, some (.resolving none), [.resolve id hostname port]⟩
  | askIp (address : SocketAddr) (fresh : x = ⟨none, none, []⟩) (below : id < bound) :
      Move limits bound id x ⟨none, some (.openingIp none), [.openIp id address]⟩
  | receive {c : Caller} {left : Option Caller × Bool} {q : List ClientCommand}
      (caller : x.caller = some c) (h : c.receive = some left)
      (guarded : Guarded id left.2 x.queued q) : Move limits bound id x ⟨x.state, left.1, q⟩
  | offer {c c' : Caller} (address : SocketAddr) (caller : x.caller = some c)
      (h : c.offer address = some c') : Move limits bound id x { x with caller := some c' }
  | submit {candidates : List SocketAddr} {address : SocketAddr} {permit : Bool}
      (caller : x.caller = some (.offering candidates address permit)) :
      Move limits bound id x ⟨x.state, some (.opening candidates none),
        x.queued ++ [.openTo id (canonicalizeAddress address) permit]⟩
  | giveUp {c : Caller} {q : List ClientCommand} (caller : x.caller = some c)
      (patient : c.permit = true → x.Settled) (guarded : Guarded id c.giveUp.2 x.queued q) :
      Move limits bound id x ⟨x.state, c.giveUp.1, q⟩

theorem Closes.snoc (h : Closes id q) : Closes id (q ++ [.close id]) := by
  intro cmd hmem
  rcases List.mem_append.mp hmem with hmem | hmem
  · exact h cmd hmem
  · exact List.mem_singleton.mp hmem

theorem Closes.guarded {armed : Bool} (h : Closes id q) (hg : Guarded id armed q q') :
    Closes id q' := by
  rcases hg with rfl | ⟨-, rfl⟩
  · exact h
  · exact h.snoc

theorem Closes.nil (id : ℕ) : Closes id [] := nofun

theorem Caller.gone_cases (h : c.gone = true) :
    (∃ candidates, c = .target candidates false true) ∨
      (∃ bound, c = .openingIp (some (.opened bound))) ∨
      ∃ candidates bound, c = .opening candidates (some (.opened bound)) := by
  unfold gone at h
  split at h
  · rename_i candidates permit finished
    cases permit <;> cases finished <;> first | exact .inl ⟨candidates, rfl⟩ | cases h
  · exact .inr (.inl ⟨_, rfl⟩)
  · exact .inr (.inr ⟨_, _, rfl⟩)
  · cases h

theorem gone_induction {P : Option Caller → Prop} (h : caller.all gone = true)
    (absent : P none) (target : ∀ candidates, P (some (.target candidates false true)))
    (openingIp : ∀ bound, P (some (.openingIp (some (.opened bound)))))
    (opening : ∀ candidates bound, P (some (.opening candidates (some (.opened bound))))) :
    P caller := by
  cases caller with
  | none => exact absent
  | some c =>
    rcases gone_cases h with ⟨candidates, rfl⟩ | ⟨bound, rfl⟩ | ⟨candidates, bound, rfl⟩
    · exact target candidates
    · exact openingIp bound
    · exact opening candidates bound

theorem gone_mails (h : caller.all gone = true) (reply : Option Reply) :
    mails reply caller = caller := by
  cases reply with
  | none => rfl
  | some r =>
    exact gone_induction (P := fun c => mails (some r) c = c) h rfl (fun _ => rfl)
      (fun _ => rfl) (fun _ _ => rfl)

theorem settled_of_gone (h : caller.all gone = true) : caller.all settled = true :=
  gone_induction (P := fun c => c.all settled = true) h rfl (fun _ => rfl) (fun _ => rfl)
    (fun _ _ => rfl)

theorem gone_waits (h : caller.all gone = true) : caller.any waits = false :=
  gone_induction (P := fun c => c.any waits = false) h rfl (fun _ => rfl) (fun _ => rfl)
    (fun _ _ => rfl)

theorem gone_giveUp (h : c.gone = true) : c.giveUp.1.all gone = true := by
  rcases gone_cases h with ⟨_, rfl⟩ | ⟨_, rfl⟩ | ⟨_, _, rfl⟩ <;> rfl

theorem Attends.giveUp (h : Attends id c caller q) (hc : c.giveUp.1.all gone = true)
    (hcaller : caller = some c') (hg : Guarded id c'.giveUp.2 q q') :
    Attends id c c'.giveUp.1 q' := by
  subst hcaller
  rcases h with ⟨hsame, rfl⟩ | ⟨hgone, hq⟩
  · cases hsame
    exact .inr ⟨hc, (Closes.nil id).guarded hg⟩
  · exact .inr ⟨gone_giveUp hgone, hq.guarded hg⟩

theorem Attends.refused (h : Attends id c caller q) {reply : Reply}
    (hc : (c.mailed reply).settled = true) :
    Backed id ⟨none, mails (some reply) caller, q⟩ := by
  rcases h with ⟨rfl, rfl⟩ | ⟨hgone, hcloses⟩
  · exact .free hc (.nil id)
  · rw [gone_mails hgone]
    exact .free (settled_of_gone hgone) hcloses

theorem Closes.cons (h : Closes id (cmd :: q)) : cmd = .close id ∧ Closes id q :=
  ⟨h cmd List.mem_cons_self, fun c hc => h c (List.mem_cons_of_mem _ hc)⟩

theorem Backed.command {full : Bool} {rest : List ClientCommand} (hb : Backed id x)
    (hq : x.queued = cmd :: rest) (h : handleClientCommand full ⟨x.state, stream⟩ cmd = .ok r) :
    Backed id ⟨r.entry.state, mails r.reply x.caller, rest⟩ := by
  cases hb with
  | asked hostname port =>
    cases hq
    obtain ⟨_, -, h⟩ := bind_ok h
    split at h
    · cases h
      exact .free rfl (.nil id)
    · split at h
      · cases h
      split at h
      · cases h
      · cases h
        exact .resolving port
  | resolving | held => cases hq
  | sent mem state_eq attends =>
    cases hq
    rcases state_eq with rfl | rfl
    · cases h
      exact attends.refused rfl
    · simp only [handleClientCommand, mem, if_true] at h
      cases h
      exact .opening attends
  | askedIp address attends =>
    cases hq
    obtain ⟨_, -, h⟩ := bind_ok h
    split at h
    · cases h
      exact attends.refused rfl
    · split at h
      · cases h
      · cases h
        exact .opening attends
  | opening attends =>
    rcases attends with ⟨-, rfl⟩ | ⟨hgone, hcloses⟩
    · cases hq
    · dsimp only at hq
      subst hq
      obtain ⟨rfl, hrest⟩ := hcloses.cons
      cases h
      rw [gone_mails hgone]
      exact .owned (.inr rfl) hgone hrest
  | owned state_eq gone closes =>
    dsimp only at hq
    subst hq
    obtain ⟨rfl, hrest⟩ := closes.cons
    rcases state_eq with rfl | rfl <;> cases h <;> exact .owned (.inr rfl) gone hrest
  | free settled closes =>
    dsimp only at hq
    subst hq
    obtain ⟨rfl, hrest⟩ := closes.cons
    cases h
    exact .free settled hrest

theorem Backed.of_resolving {port : ℕ} (hb : Backed id ⟨some (.resolving port), caller, q⟩) :
    caller = some (.resolving none) ∧ q = [] := by
  cases hb with
  | resolving => exact ⟨rfl, rfl⟩
  | held keeps state_eq | sent mem state_eq | owned state_eq =>
    rcases state_eq with heq | heq <;> cases heq

theorem Backed.of_opening {candidates : Option (List SocketAddr)}
    (hb : Backed id ⟨some (.opening candidates permit), caller, q⟩) :
    permit = true ∧ Attends id (.waiting candidates) caller q := by
  cases hb with
  | opening attends => exact ⟨rfl, attends⟩
  | held keeps state_eq | sent mem state_eq | owned state_eq =>
    rcases state_eq with heq | heq <;> cases heq

theorem Backed.of_owned {state : ClientStreamState}
    (hstate : state = .opened permit ∨ state = .closing permit)
    (hb : Backed id ⟨some state, caller, q⟩) :
    permit = true ∧ caller.all gone = true ∧ Closes id q := by
  cases hb with
  | owned state_eq gone closes =>
    refine ⟨?_, gone, closes⟩
    rcases hstate with rfl | rfl <;> rcases state_eq with heq | heq <;> cases heq <;> rfl
  | resolving | opening => rcases hstate with heq | heq <;> cases heq
  | held keeps state_eq | sent mem state_eq =>
    rcases hstate with rfl | rfl <;> rcases state_eq with heq | heq <;> cases heq

theorem Attends.opened {candidates : Option (List SocketAddr)}
    (h : Attends id (.waiting candidates) caller q) (bound : SocketAddr) :
    (mails (if caller.any waits then some (.opened bound) else none) caller).all
      gone = true ∧ Closes id q := by
  rcases h with ⟨rfl, rfl⟩ | ⟨hgone, hcloses⟩
  · cases candidates <;> exact ⟨rfl, .nil id⟩
  · rw [gone_waits hgone]
    exact ⟨hgone, hcloses⟩

theorem Attends.failed {candidates : Option (List SocketAddr)}
    (h : Attends id (.waiting candidates) caller q) (error : MuxError)
    (herror : candidates = none ∨ error.isRemote = false) (permit : Bool) :
    Backed id ⟨none, mails (some (.openFailed error permit)) caller, q⟩ := by
  refine h.refused ?_
  cases candidates with
  | none => rfl
  | some =>
    have hlocal := herror.resolve_left nofun
    show (!error.isRemote) = true
    rw [hlocal]
    rfl

theorem Backed.frame {f : Frame} (hb : Backed id x)
    (heard : ∀ code diagnostic candidates permit, f = .openError f.streamId code diagnostic →
      x.state = some (.opening (some candidates) permit) → x.caller.any waits = true)
    (h : handleClientFrame limits (x.caller.any waits) ⟨x.state, stream⟩ f = .ok r) :
    Backed id ⟨r.entry.state, mails r.reply x.caller, x.queued⟩ := by
  obtain ⟨state, caller, q⟩ := x
  cases handleClientFrame_case h with
  | flow | late => exact hb
  | resolved hx hne =>
    cases hx
    obtain ⟨rfl, rfl⟩ := hb.of_resolving
    exact .held .answered (.inr rfl)
  | emptied hx | resolveFailed hx =>
    cases hx
    obtain ⟨rfl, rfl⟩ := hb.of_resolving
    exact .free rfl (.nil id)
  | abandoned hx hne hgone =>
    cases hx
    obtain ⟨rfl, rfl⟩ := hb.of_resolving
    cases hgone
  | opened hx =>
    cases hx
    obtain ⟨rfl, attends⟩ := hb.of_opening
    obtain ⟨hgone, hcloses⟩ := attends.opened _
    exact .owned (.inl rfl) hgone hcloses
  | @openFailed i code diagnostic candidates permit hx =>
    cases hx
    obtain ⟨rfl, attends⟩ := hb.of_opening
    cases candidates with
    | none => exact attends.failed _ (.inl rfl) _
    | some candidates =>
      have hwaits := heard code diagnostic candidates true rfl rfl
      rcases attends with ⟨rfl, rfl⟩ | ⟨hgone, -⟩
      · exact .held (.refused rfl) (.inr rfl)
      · rw [gone_waits hgone] at hwaits
        cases hwaits
  | closeLast hx =>
    cases hx
    obtain ⟨-, gone, closes⟩ := hb.of_owned (.inr rfl)
    exact .free (settled_of_gone gone) closes
  | closeOpened hx =>
    cases hx
    obtain ⟨-, gone, closes⟩ := hb.of_owned (.inl rfl)
    exact .free (settled_of_gone gone) closes
  | @closeEarly i reason st hx hst =>
    cases hx
    cases st with
    | resolving =>
      obtain ⟨rfl, rfl⟩ := hb.of_resolving
      exact .free rfl (.nil id)
    | resolved =>
      cases hb with
      | held keeps => exact .held keeps (.inl rfl)
      | sent mem state_eq attends => exact .sent mem (.inl rfl) attends
      | owned state_eq => rcases state_eq with heq | heq <;> cases heq
    | opening =>
      obtain ⟨rfl, attends⟩ := hb.of_opening
      exact attends.failed _ (.inr rfl) _
    | opened | closing => cases hst

theorem event_state {state : Option ClientStreamState} (h : ∀ permit, state ≠ some (.opened permit))
    (stream : Option Stream) (w : WorkerEvent) :
    (clientWorkerEvent ⟨state, stream⟩ w).state = state := by
  cases state with
  | none => cases w <;> rfl
  | some st =>
    cases st with
    | opened permit => exact absurd rfl (h permit)
    | _ => cases w <;> rfl

theorem Backed.event (hb : Backed id x) (stream : Option Stream) (w : WorkerEvent) :
    Backed id { x with state := (clientWorkerEvent ⟨x.state, stream⟩ w).state } := by
  obtain ⟨state, caller, q⟩ := x
  by_cases hopen : ∃ permit, state = some (.opened permit)
  · obtain ⟨permit, rfl⟩ := hopen
    obtain ⟨rfl, gone, closes⟩ := hb.of_owned (.inl rfl)
    cases w with
    | localCloseQueued i => exact .owned (.inr rfl) gone closes
    | stopped i => exact .free (settled_of_gone gone) closes
  · rw [event_state (fun permit hstate => hopen ⟨permit, hstate⟩)]
    exact hb

/-! ### The callers' moves -/

theorem gone_receive (hc : c.gone = true) (h : c.receive = some left) :
    left.1.all gone = true ∧ left.2 = false := by
  rcases gone_cases hc with ⟨_, rfl⟩ | ⟨_, rfl⟩ | ⟨_, _, rfl⟩ <;> cases h <;> exact ⟨rfl, rfl⟩

theorem settled_receive (hc : c.settled = true) (h : c.receive = some left) :
    left.1.all settled = true := by
  cases c with
  | resolving mail | openingIp mail =>
    cases mail with
    | none => cases hc
    | some r => cases r <;> first | (cases h; rfl) | cases hc
  | offering => cases hc
  | target => cases h
  | opening candidates mail =>
    cases mail with
    | none => cases hc
    | some r =>
      cases r with
      | opened =>
        cases h
        rfl
      | openFailed error =>
        have hlocal : error.isRemote = false := by simpa [settled] using hc
        simp only [receive, hlocal] at h
        cases h
        rfl
      | _ => cases hc

theorem Guarded.unarmed (h : Guarded id false q q') : q' = q := by
  rcases h with h | ⟨h, -⟩
  · exact h
  · cases h

theorem Guarded.cons {armed : Bool} (h : Guarded id armed (cmd :: q) q') :
    ∃ rest, q' = cmd :: rest ∧ Guarded id armed q rest := by
  rcases h with rfl | ⟨harmed, rfl⟩
  · exact ⟨q, rfl, .inl rfl⟩
  · exact ⟨q ++ [.close id], rfl, .inr ⟨harmed, rfl⟩⟩

theorem Attends.receive (hc : c.receive = none) (h : Attends id c (some c') q)
    (hleft : c'.receive = some left) : Attends id c left.1 q ∧ left.2 = false := by
  rcases h with ⟨hsame, rfl⟩ | ⟨hgone, hcloses⟩
  · cases hsame
    rw [hc] at hleft
    cases hleft
  · obtain ⟨hleft', hunarmed⟩ := gone_receive hgone hleft
    exact ⟨.inr ⟨hleft', hcloses⟩, hunarmed⟩

theorem waiting_receive (candidates : Option (List SocketAddr)) :
    (waiting candidates).receive = none := by
  cases candidates <;> rfl

theorem Backed.receive (hb : Backed id x) (hcaller : x.caller = some c)
    (h : c.receive = some left) (hg : Guarded id left.2 x.queued q) :
    Backed id ⟨x.state, left.1, q⟩ := by
  cases hb with
  | asked | resolving =>
    cases hcaller
    cases h
  | held keeps state_eq =>
    cases hcaller
    cases keeps with
    | answered =>
      cases h
      rw [hg.unarmed]
      exact .held .target state_eq
    | target | offering => cases h
    | refused remote =>
      simp only [receive, remote, if_true] at h
      cases h
      rw [hg.unarmed]
      exact .held .target state_eq
  | sent mem state_eq attends =>
    cases hcaller
    obtain ⟨hattends, hunarmed⟩ := attends.receive rfl h
    rw [hunarmed] at hg
    rw [hg.unarmed]
    exact .sent mem state_eq hattends
  | askedIp address attends =>
    cases hcaller
    obtain ⟨hattends, hunarmed⟩ := attends.receive rfl h
    rw [hunarmed] at hg
    rw [hg.unarmed]
    exact .askedIp address hattends
  | opening attends =>
    cases hcaller
    obtain ⟨hattends, hunarmed⟩ := attends.receive (waiting_receive _) h
    rw [hunarmed] at hg
    rw [hg.unarmed]
    exact .opening hattends
  | owned state_eq gone closes =>
    cases hcaller
    exact .owned state_eq (gone_receive gone h).1 (closes.guarded hg)
  | free settled closes =>
    cases hcaller
    exact .free (settled_receive settled h) (closes.guarded hg)

theorem offer_cases (h : c.offer address = some c') :
    ∃ candidates permit, c = .target candidates permit false ∧
      canonicalizeAddress address ∈ candidates ∧
      c' = .offering candidates (canonicalizeAddress address) permit := by
  cases c with
  | target candidates permit finished =>
    simp only [offer] at h
    split at h
    · cases h
    rename_i hopen
    split at h
    · rename_i hmem
      cases h
      rw [Bool.not_eq_true] at hopen
      exact ⟨candidates, permit, by rw [hopen], hmem, rfl⟩
    · cases h
  | _ => cases h

theorem Attends.waits_or_gone (hc : c.waits = true) (h : Attends id c (some c') q) :
    c'.waits = true ∨ c'.gone = true := by
  rcases h with ⟨hsame, -⟩ | ⟨hgone, -⟩
  · cases hsame
    exact .inl hc
  · exact .inr hgone

theorem Attends.not_target (hc : c.waits = true)
    (h : Attends id c (some (.target candidates permit false)) q) : False := by
  rcases h.waits_or_gone hc with hwaits | hgone
  · cases hwaits
  · cases permit <;> cases hgone

theorem Attends.not_offering (hc : c.waits = true)
    (h : Attends id c (some (.offering candidates address permit)) q) : False := by
  rcases h.waits_or_gone hc with hwaits | hgone
  · cases hwaits
  · cases hgone

theorem Backed.offer (hb : Backed id x) (hcaller : x.caller = some c)
    (h : c.offer address = some c') : Backed id { x with caller := some c' } := by
  obtain ⟨candidates, permit, rfl, hmem, rfl⟩ := offer_cases h
  cases hb with
  | asked | resolving => cases hcaller
  | held keeps state_eq =>
    cases hcaller
    cases keeps with
    | target => exact .held (.offering hmem (canonicalizeAddress_idem address)) state_eq
  | sent mem state_eq attends | askedIp address attends =>
    cases hcaller
    exact (attends.not_target rfl).elim
  | @opening candidates' caller q attends =>
    cases hcaller
    exact (attends.not_target (by cases candidates' <;> rfl)).elim
  | owned state_eq gone =>
    cases hcaller
    cases permit <;> cases gone
  | free settled =>
    cases hcaller
    cases settled

theorem Backed.submit (hb : Backed id x)
    (hcaller : x.caller = some (.offering candidates address permit)) :
    Backed id ⟨x.state, some (.opening candidates none),
      x.queued ++ [.openTo id (canonicalizeAddress address) permit]⟩ := by
  cases hb with
  | asked | resolving => cases hcaller
  | held keeps state_eq =>
    cases hcaller
    cases keeps with
    | offering mem canonical =>
      rw [canonical]
      exact .sent mem state_eq (.inl ⟨rfl, rfl⟩)
  | sent mem state_eq attends | askedIp address attends =>
    cases hcaller
    exact (attends.not_offering rfl).elim
  | @opening candidates' caller q attends =>
    cases hcaller
    exact (attends.not_offering (by cases candidates' <;> rfl)).elim
  | owned state_eq gone =>
    cases hcaller
    cases gone
  | free settled =>
    cases hcaller
    cases settled

theorem settled_giveUp : c.giveUp.1.all settled = true := by
  cases c <;> rfl

theorem Backed.giveUp (hb : Backed id x) (hcaller : x.caller = some c)
    (patient : c.permit = true → x.Settled) (hg : Guarded id c.giveUp.2 x.queued q) :
    Backed id ⟨x.state, c.giveUp.1, q⟩ := by
  cases hb with
  | asked =>
    cases hcaller
    obtain ⟨i, hclose⟩ := (patient rfl).2 _ List.mem_cons_self
    cases hclose
  | resolving =>
    cases hcaller
    have hnone := (patient rfl).1
    cases hnone
  | held keeps =>
    cases hcaller
    have hnone := (patient (by cases keeps <;> rfl)).1
    dsimp only at hnone
    subst hnone
    exact .free settled_giveUp ((Closes.nil id).guarded hg)
  | sent mem state_eq attends =>
    obtain ⟨rest, rfl, hrest⟩ := hg.cons
    exact .sent mem state_eq (attends.giveUp rfl hcaller hrest)
  | askedIp address attends =>
    obtain ⟨rest, rfl, hrest⟩ := hg.cons
    exact .askedIp address (attends.giveUp rfl hcaller hrest)
  | @opening candidates caller q attends =>
    exact .opening (attends.giveUp (by cases candidates <;> rfl) hcaller hg)
  | owned state_eq gone closes =>
    dsimp only at hcaller
    subst hcaller
    exact .owned state_eq (gone_giveUp gone) (closes.guarded hg)
  | free settled closes => exact .free settled_giveUp (closes.guarded hg)

theorem Backed.move {x' : Ledger} (hb : Backed id x) (hm : x.Move limits bound id x') :
    Backed id x' := by
  cases hm with
  | stay => exact hb
  | command queued h => exact hb.command queued h
  | frame heard h => exact hb.frame heard h
  | event stream w => exact hb.event stream w
  | ask hostname port => exact .asked hostname port
  | askIp address => exact .askedIp address (.inl ⟨rfl, rfl⟩)
  | receive caller h guarded => exact hb.receive caller h guarded
  | offer address caller h => exact hb.offer caller h
  | submit caller => exact hb.submit caller
  | giveUp caller patient guarded => exact hb.giveUp caller patient guarded

theorem unused_move (hid : bound ≤ id) (hm : Ledger.Move limits bound id ⟨none, none, []⟩ x) :
    x = ⟨none, none, []⟩ := by
  cases hm with
  | stay => rfl
  | command queued h => cases queued
  | frame heard h =>
    cases handleClientFrame_case h with
    | flow | late => rfl
    | resolved hx | emptied hx | abandoned hx | opened hx | resolveFailed hx | openFailed hx
    | closeLast hx | closeOpened hx | closeEarly hx => cases hx
  | event stream w => cases w <;> rfl
  | ask | askIp => omega
  | receive caller | offer address caller | submit caller | giveUp caller => cases caller

end Alighieri.Rdp
