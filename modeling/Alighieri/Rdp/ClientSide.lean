import Alighieri.Lib.Transition
import Alighieri.Rdp.Queues

/-!
# One stream at the client end

Every step of the client is one of the moves of a stream, for every stream. `ClientBook`:
identifiers are odd and reach the driver in rising order.
-/

namespace Alighieri.Rdp
open Net Lts List Endpoint Client

variable {c c' : Client} {cmd : ClientCommand} {limits : NegotiatedLimits} {caps : Caps}
  {act : ClientAct}

def Client.meet (limits : NegotiatedLimits) (caps : Caps) (c : Client) :
    PeerAct ClientAct → Option Client
  | .arrive f => c.lift (c.ep.arrive f)
  | .depart => c.lift (c.ep.depart.map Prod.snd)
  | .own act => c.step limits caps act

def Client.side (c : Client) (id : ℕ) : Side ClientStreamState :=
  c.ep.side (id.ble c.started) id

def Client.creating (c : Client) : List ℕ := (c.commands.filter creates).map commandId

/- What a caller has checked before it sends its command. -/
def ClientCommand.Valid : ClientCommand → Prop
  | .resolve _ hostname port => (Frame.resolve 1 port hostname).validate = .ok ()
  | _ => True

structure ClientBook (c : Client) : Prop where
  odd : c.nextStreamId % 2 = 1
  below : c.started < c.nextStreamId
  rising : c.creating.Pairwise (· < ·)
  fresh : ∀ i ∈ c.creating, c.started < i ∧ i < c.nextStreamId ∧ i % 2 = 1
  valid : ∀ cmd ∈ c.commands, cmd.Valid

theorem ClientBook.start : ClientBook start := by
  refine ⟨rfl, by decide, ?_, ?_, ?_⟩ <;> simp [Client.start, creating]

theorem ClientBook.same (hb : ClientBook c) (hc : c'.commands = c.commands)
    (hn : c'.nextStreamId = c.nextStreamId) (hs : c'.started = c.started) : ClientBook c' := by
  have hcr : c'.creating = c.creating := by simp only [creating, hc]
  exact ⟨by rw [hn]; exact hb.odd, by rw [hn, hs]; exact hb.below, by rw [hcr]; exact hb.rising,
    by rw [hcr, hn, hs]; exact hb.fresh, by rw [hc]; exact hb.valid⟩

theorem ClientBook.valid_snoc (hb : ClientBook c) (hv : cmd.Valid) :
    ∀ cmd' ∈ c.commands ++ [cmd], cmd'.Valid := by
  intro cmd' hmem
  rcases mem_append.mp hmem with hmem | hmem
  · exact hb.valid cmd' hmem
  · rw [mem_singleton.mp hmem]
    exact hv

theorem ClientBook.create (hb : ClientBook c) (hcr : creates cmd = true)
    (hid : commandId cmd = c.nextStreamId) (hv : cmd.Valid) :
    ClientBook { c with
      nextStreamId := c.nextStreamId + 2, commands := c.commands ++ [cmd] } := by
  have hodd := hb.odd
  have hbelow := hb.below
  have hlist : creating { c with
      nextStreamId := c.nextStreamId + 2, commands := c.commands ++ [cmd] } =
      c.creating ++ [c.nextStreamId] := by
    simp [creating, filter_append, hcr, hid]
  refine ⟨by simp only; omega, by simp only; omega, ?_, ?_, hb.valid_snoc hv⟩
  · rw [hlist]
    refine pairwise_append.mpr ⟨hb.rising, pairwise_singleton _ _, ?_⟩
    intro i hi j hj
    rw [mem_singleton.mp hj]
    exact (hb.fresh i hi).2.1
  · intro i hi
    rw [hlist] at hi
    simp only
    rcases mem_append.mp hi with hi | hi
    · have := hb.fresh i hi
      omega
    · rw [mem_singleton.mp hi]
      omega

theorem ClientBook.sendOther (hb : ClientBook c) (hcr : creates cmd = false)
    (hv : cmd.Valid) : ClientBook { c with commands := c.commands ++ [cmd] } := by
  have hlist : creating { c with commands := c.commands ++ [cmd] } = c.creating := by
    simp [creating, filter_append, hcr]
  exact ⟨hb.odd, hb.below, by rw [hlist]; exact hb.rising, by rw [hlist]; exact hb.fresh,
    hb.valid_snoc hv⟩

theorem Client.settle_commands (c : Client) (id : ℕ) (r : Except MuxError ClientHandled) :
    (c.settle id r).commands = c.commands ∧ (c.settle id r).nextStreamId = c.nextStreamId ∧
    (c.settle id r).started = c.started := by
  cases r <;> exact ⟨rfl, rfl, rfl⟩

theorem ClientBook.command (hb : ClientBook c) (h : c.command limits = some c') :
    ClientBook c' := by
  unfold Client.command at h
  split at h
  · split at h
    · cases h
    rename_i cmd rest hcmd
    cases h
    have hcr : c.creating = if creates cmd then
        commandId cmd :: (rest.filter creates).map commandId
        else (rest.filter creates).map commandId := by
      simp only [creating, hcmd, filter_cons]
      split <;> rfl
    have hrise := hb.rising
    have hfresh := hb.fresh
    rw [hcr] at hrise hfresh
    have hvalid : ∀ cmd ∈ rest, cmd.Valid := fun cmd' hmem =>
      hb.valid cmd' (by rw [hcmd]; exact mem_cons_of_mem _ hmem)
    have hnew : ClientBook { c with
        commands := rest
        started := if creates cmd then commandId cmd else c.started } := by
      cases hk : creates cmd with
      | true =>
        simp only [hk, if_true] at hrise hfresh ⊢
        obtain ⟨hall, hrest⟩ := pairwise_cons.mp hrise
        refine ⟨hb.odd, (hfresh _ (mem_cons_self)).2.1, hrest, ?_, hvalid⟩
        intro i hi
        exact ⟨hall i hi, (hfresh i (mem_cons_of_mem _ hi)).2⟩
      | false =>
        simp only [hk] at hrise hfresh ⊢
        exact ⟨hb.odd, hb.below, hrise, hfresh, hvalid⟩
    obtain ⟨h1, h2, h3⟩ := settle_commands { c with
        commands := rest
        started := if creates cmd then commandId cmd else c.started }
      (commandId cmd) (handleClientCommand
        (decide (limits.maxStreams ≤ c.ep.streams.size)) (c.ep.entry (commandId cmd)) cmd)
    exact hnew.same h1 h2 h3
  · cases h

/-- The moves of one stream at the client. `inp` is what the driver has handled, `out`
what has been queued. -/
inductive ClientMove (limits : NegotiatedLimits) (id : ℕ) (x : Side ClientStreamState) :
    Side ClientStreamState → List Frame → List Frame → Prop where
  | side {x' : Side ClientStreamState} {out : List Frame}
      (h : SideMove limits.maxData id x x' out) : ClientMove limits id x x' [] out
  | pass (known ended : Bool) : ClientMove limits id x
      { x with known := x.known || known, ended := x.ended || ended } [] []
  | command {full : Bool} {cmd : ClientCommand} {r : ClientHandled}
      (hid : commandId cmd = id) (hrun : x.ended = false) (hidle : x.await = .idle)
      (hnew : creates cmd = true → x.known = false ∧ id % 2 = 1)
      (h : handleClientCommand full ⟨x.state, x.stream⟩ cmd = .ok r) :
      ClientMove limits id x { x with
        state := r.entry.state
        stream := r.entry.stream
        await := r.await
        known := x.known || creates cmd } [] []
  | commandError {full : Bool} {cmd : ClientCommand} {error : MuxError}
      (hid : commandId cmd = id) (hrun : x.ended = false) (hidle : x.await = .idle)
      (hnew : creates cmd = true → x.known = false ∧ id % 2 = 1) (hv : cmd.Valid)
      (h : handleClientCommand full ⟨x.state, x.stream⟩ cmd = .error error) :
      ClientMove limits id x
        { x with known := x.known || creates cmd, ended := true } [] []
  | frame {alive : Bool} {f : Frame} {r : ClientHandled} (hf : f.lane = some id)
      (hrun : x.ended = false) (hidle : x.await = .idle)
      (h : handleClientFrame limits alive ⟨x.state, x.stream⟩ f = .ok r) :
      ClientMove limits id x
        { x with state := r.entry.state, stream := r.entry.stream, await := r.await } [f] []
  | frameError {alive : Bool} {f : Frame} {error : MuxError} (hf : f.lane = some id)
      (hrun : x.ended = false) (hidle : x.await = .idle)
      (h : handleClientFrame limits alive ⟨x.state, x.stream⟩ f = .error error) :
      ClientMove limits id x { x with ended := true } [f] []
  | event {w : WorkerEvent} {rest : List WorkerEvent} (hrun : x.ended = false)
      (hidle : x.await = .idle) (hw : x.events = w :: rest) :
      ClientMove limits id x { x with
        state := (clientWorkerEvent ⟨x.state, x.stream⟩ w).state
        stream := (clientWorkerEvent ⟨x.state, x.stream⟩ w).stream
        events := rest } [] []

theorem known_rises (id : ℕ) {m n : ℕ} (h : m ≤ n) : id.ble n = (id.ble m || id.ble n) := by
  rw [Bool.eq_iff_iff, Bool.or_eq_true, Nat.ble_eq, Nat.ble_eq]
  omega

theorem Client.settle_other {i id : ℕ} {r : Except MuxError ClientHandled} (hi : id ≠ i)
    (hidle : c.ep.await = .idle) (hab : ∀ h, r = .ok h → h.await.About i) :
    ∃ ended, (c.settle i r).side id = { c.side id with ended := (c.side id).ended || ended } := by
  cases r with
  | ok h =>
    refine ⟨false, ?_⟩
    have hoff : h.await.on id = .idle := (hab h rfl).2 id hi
    simp [side, settle, Endpoint.side, setEntry, Table.lookup_set_of_ne hi,
      hoff, hidle]
  | error e => exact ⟨true, by simp [side, settle, Endpoint.side, fail]⟩

theorem Client.command_side (hb : ClientBook c) (h : c.command limits = some c') (id : ℕ) :
    ClientMove limits id (c.side id) (c'.side id) [] [] ∧ Flows id c.ep c'.ep [] [] := by
  unfold command at h
  split at h
  · rename_i hready
    have hidle := (ready_iff.mp hready).2
    obtain ⟨hrun, hnow⟩ := side_ready hready (id.ble c.started) id
    split at h
    · cases h
    rename_i cmd rest hcmd
    have hfresh : creates cmd = true →
        c.started < commandId cmd ∧ commandId cmd % 2 = 1 := by
      intro hk
      have hmem : commandId cmd ∈ c.creating := by simp [creating, hcmd, hk]
      exact ⟨(hb.fresh _ hmem).1, (hb.fresh _ hmem).2.2⟩
    generalize hr : handleClientCommand (decide (limits.maxStreams ≤ c.ep.streams.size))
      (c.ep.entry (commandId cmd)) cmd = r at h
    generalize hst : (if creates cmd then commandId cmd else c.started) = started at h
    cases h
    have hflow : Flows id c.ep (settle { c with
        commands := rest, started := started } (commandId cmd) r).ep [] [] := by
      cases r <;> exact .same rfl rfl rfl rfl rfl
    refine ⟨?_, hflow⟩
    by_cases hi : id = commandId cmd
    · have hnew : creates cmd = true → (c.side id).known = false ∧ id % 2 = 1 := by
        intro hk
        have := hfresh hk
        refine ⟨?_, by omega⟩
        rw [← Bool.not_eq_true]
        simp only [side, Endpoint.side, Nat.ble_eq]
        omega
      have hknown : id.ble started = (id.ble c.started || creates cmd) := by
        rw [← hst]
        cases hk : creates cmd <;> simp [hi]
      cases r with
      | ok r =>
        have hab := (handleClientCommand_case hr).await.1.1
        subst hi
        have hmove : ClientMove limits _ (c.side _) _ [] [] :=
          .command rfl hrun hnow hnew hr
        simpa [side, settle, hab, hknown, Endpoint.side, setEntry] using hmove
      | error e =>
        subst hi
        have hmove : ClientMove limits _ (c.side _) _ [] [] :=
          .commandError rfl hrun hnow hnew (hb.valid cmd (by rw [hcmd]; exact mem_cons_self))
            hr
        simpa [side, settle, fail, hknown, Endpoint.side] using hmove
    · have hab : ∀ h, r = .ok h → h.await.About (commandId cmd) := by
        rintro h rfl
        exact (handleClientCommand_case hr).await.1
      have hle : c.started ≤ started := by
        rw [← hst]
        split
        · rename_i hk
          exact Nat.le_of_lt (hfresh hk).1
        · exact Nat.le_refl _
      obtain ⟨ended, hside⟩ := settle_other (c := { c with
        commands := rest, started := started }) hi hidle hab
      rw [hside]
      have hmove : ClientMove limits id (c.side id) _ [] [] := .pass (id.ble started) ended
      simpa [side, Endpoint.side, ← known_rises id hle] using hmove
  · cases h

theorem Client.frame_side {alive : Bool} {f : Frame} {rest : List Frame}
    (hready : c.ep.ready = true) (hf : c.ep.frames = f :: rest) (hping : ∀ n, f ≠ .ping n)
    (hpong : ∀ n, f ≠ .pong n)
    (h : c' = settle { c with ep := { c.ep with frames := rest } } f.streamId
      (handleClientFrame limits alive (c.ep.entry f.streamId) f)) (id : ℕ) :
    ClientMove limits id (c.side id) (c'.side id) (onLane id [f]) [] ∧
      Flows id c.ep c'.ep (onLane id [f]) [] := by
  have hidle := (ready_iff.mp hready).2
  obtain ⟨hrun, hnow⟩ := side_ready hready (id.ble c.started) id
  have hlane := Frame.lane_streamId hping hpong
  generalize hr : handleClientFrame limits alive (c.ep.entry f.streamId) f = r at h
  subst h
  have hflow : Flows id c.ep
      (settle { c with ep := { c.ep with frames := rest } } f.streamId r).ep
      (onLane id [f]) [] := by
    cases r <;> exact .handled f hf rfl rfl rfl rfl
  refine ⟨?_, hflow⟩
  by_cases hi : id = f.streamId
  · rw [onLane_all (by simpa [hi] using hlane)]
    cases r with
    | ok r =>
      have hab := (handleClientFrame_case hr).silent.1.1.1
      subst hi
      have hmove : ClientMove limits _ (c.side _) _ [f] [] := .frame hlane hrun hnow hr
      simpa [side, settle, hab, Endpoint.side, setEntry] using hmove
    | error e =>
      subst hi
      have hmove : ClientMove limits _ (c.side _) _ [f] [] := .frameError hlane hrun hnow hr
      simpa [side, settle, fail, Endpoint.side] using hmove
  · rw [onLane_other hlane hi]
    have hab : ∀ h, r = .ok h → h.await.About f.streamId := by
      rintro h rfl
      exact (handleClientFrame_case hr).silent.1.1
    obtain ⟨ended, hside⟩ := settle_other
      (c := { c with ep := { c.ep with frames := rest } }) hi hidle hab
    rw [hside]
    have hmove : ClientMove limits id (c.side id) _ [] [] := .pass false ended
    simpa [side, Endpoint.side] using hmove

theorem Client.event_side {w : WorkerEvent} {rest : List WorkerEvent} (hready : c.ep.ready = true)
    (hw : c.ep.events = w :: rest) (h : c' = { c with ep :=
      { c.ep.setEntry w.id (clientWorkerEvent (c.ep.entry w.id) w) with events := rest } })
    (id : ℕ) : ClientMove limits id (c.side id) (c'.side id) [] [] := by
  obtain ⟨hrun, hnow⟩ := side_ready hready (id.ble c.started) id
  subst h
  by_cases hi : id = w.id
  · subst hi
    have hev : (c.side w.id).events = w :: rest.filter (fun v => decide (v.id = w.id)) := by
      simp [side, Endpoint.side, hw]
    have hmove : ClientMove limits w.id (c.side w.id) _ [] [] := .event hrun hnow hev
    simpa [side, Endpoint.side, setEntry, Endpoint.entry] using hmove
  · refine .side (.of_eq ?_)
    simp [side, Endpoint.side, setEntry, Table.lookup_set_of_ne hi, hw, Ne.symm hi]

/- What holds of the client alone, whatever its peer sends. -/
structure Client.Orderly (c : Client) : Prop where
  book : ClientBook c
  tidy : c.ep.queues.Tidy
  plain : c.ep.await.next = .done ∨ ∃ nonce, c.ep.await.next = .ping nonce

theorem Client.Orderly.start : Client.start.Orderly := by
  refine ⟨ClientBook.start, ⟨?_, ?_, by trivial⟩, .inl rfl⟩ <;>
    simp [Client.start, Endpoint.start, Endpoint.queues]

/-- Every step of the client moves every stream by one of the listed moves. -/
theorem Client.step_taken (ho : c.Orderly) (h : c.step limits caps act = some c') (id : ℕ) :
    ∃ out, ClientMove limits id (c.side id) (c'.side id) (onLane id (c.taken act)) out ∧
      Flows id c.ep c'.ep (onLane id (c.taken act)) out := by
  cases step_cases h with
  | turn hact ht =>
    obtain ⟨out, hmove, hflow⟩ := ht.side ho.tidy.control (id.ble c.started) id
    rw [ht.taken_none id] at hflow ⊢
    exact ⟨out, .side hmove, hflow⟩
  | command =>
    obtain ⟨hmove, hflow⟩ := command_side ho.book h id
    exact ⟨[], hmove, hflow⟩
  | frame hready hf hping hpong =>
    rename_i alive f rest
    have htake : c.taken (.frame alive) = [f] := by rw [taken, hf]; rfl
    obtain ⟨hmove, hflow⟩ := frame_side hready hf hping hpong rfl id
    rw [htake]
    exact ⟨[], hmove, hflow⟩
  | event hready hw =>
    exact ⟨[], event_side hready hw rfl id, .same rfl rfl rfl rfl rfl⟩
  | resume hr hn =>
    rename_i next
    have hplain : next = .done ∨ ∃ nonce, next = .ping nonce := by
      cases (resume_cases hr).2 with
      | ordered ha | control ha => simpa [ha, Await.next] using ho.plain
      | _ => exact .inl rfl
    obtain ⟨out, hmove, hflow⟩ := resume_side hr hplain limits.maxData (id.ble c.started) id
    exact ⟨out, .side hmove, hflow⟩
  | _ => exact ⟨[], .side (.of_eq rfl), .same rfl rfl rfl rfl rfl⟩

theorem Client.step_side (ho : c.Orderly) (h : c.step limits caps act = some c') (id : ℕ) :
    ∃ inp out, ClientMove limits id (c.side id) (c'.side id) inp out ∧
      Flows id c.ep c'.ep inp out := by
  obtain ⟨out, hmove, hflow⟩ := step_taken ho h id
  exact ⟨_, out, hmove, hflow⟩

theorem ClientBook.step (hb : ClientBook c) (h : c.step limits caps act = some c') :
    ClientBook c' := by
  cases step_cases h with
  | turn | event | resume => exact hb.same rfl rfl rfl
  | resolve hv => exact hb.create rfl rfl hv
  | openIp hv => exact hb.create rfl rfl (by trivial)
  | openTo | close => exact hb.sendOther rfl (by trivial)
  | skipId =>
    have hodd := hb.odd
    have hbelow := hb.below
    refine ⟨by simp only; omega, by simp only; omega, hb.rising, ?_, hb.valid⟩
    intro i hi
    have := hb.fresh i hi
    simp only
    omega
  | command => exact hb.command h
  | frame =>
    obtain ⟨hc, hn, hs⟩ := settle_commands _ _ _
    exact hb.same hc hn hs

theorem Client.Orderly.step (ho : c.Orderly) (h : c.step limits caps act = some c') :
    c'.Orderly := by
  have hq := step_queues ho.tidy h
  refine ⟨ho.book.step h, ho.tidy.move (fun _ _ hl => hl.tidy) hq, ?_⟩
  have hplain := hq.await_inv (Q := fun a => a.next = .done ∨ ∃ nonce, a.next = .ping nonce)
    (.inl rfl) (fun _ _ hl => .inl hl.1.2) (fun n => .inr ⟨n, rfl⟩) (fun _ => .inl rfl)
    (fun _ _ => .inl rfl) ho.plain
  exact hplain

theorem Client.Orderly.wire (ho : c.Orderly) (reader writer : Option Frame) :
    Client.Orderly { c with ep := { c.ep with reader := reader, writer := writer } } :=
  ⟨ho.book.same rfl rfl rfl, { ho.tidy with }, ho.plain⟩

end Alighieri.Rdp
