import Alighieri.Rdp.ClientSide
import Alighieri.Rdp.AgentBook

/-!
# One stream at the agent end

The moves of one stream at the agent, and that every step of the agent is one of
them for every stream. The agent's side of a stream includes its running
operations.
-/

namespace Alighieri.Rdp
open Net Lts Endpoint Agent

variable {l : List Operation} {op : Operation} {ep : Endpoint AgentStreamState} {act : AgentAct}
  {i id : ℕ} {a a' : Agent} {limits : NegotiatedLimits} {policy : AgentPolicy} {caps : Caps}

def Agent.side (a : Agent) (id : ℕ) : Side AgentStreamState := a.ep.side (id.ble a.highest) id

def Agent.ops (a : Agent) (id : ℕ) : List Operation :=
  a.operations.filter fun op => decide (op.id = id)

/-- The moves of one stream at the agent, with the operations that run for it. -/
inductive AgentMove (limits : NegotiatedLimits) (policy : AgentPolicy) (id : ℕ)
    (x : Side AgentStreamState) (ops : List Operation) :
    Side AgentStreamState → List Operation → List Frame → List Frame → Prop where
  | side {x' : Side AgentStreamState} {out : List Frame}
      (h : SideMove limits.maxData id x x' out) : AgentMove limits policy id x ops x' ops [] out
  | pass (known ended : Bool) : AgentMove limits policy id x ops
      { x with known := x.known || known, ended := x.ended || ended } ops [] []
  | frame {v : AgentView} {f : Frame} {r : AgentHandled} (hv : v.limits = limits)
      (hk : x.known = id.ble v.highest) (hf : f.lane = some id) (hrun : x.ended = false)
      (hidle : x.await = .idle) (h : handleAgentFrame v ⟨x.state, x.stream⟩ f = .ok r) :
      AgentMove limits policy id x ops { x with
        state := r.entry.state
        stream := r.entry.stream
        await := r.await
        known := id.ble r.highest } (ops ++ r.spawned.toList) [f] []
  | frameError {v : AgentView} {f : Frame} {error : MuxError} (hv : v.limits = limits)
      (hk : x.known = id.ble v.highest) (hf : f.lane = some id) (hrun : x.ended = false)
      (hidle : x.await = .idle) (h : handleAgentFrame v ⟨x.state, x.stream⟩ f = .error error) :
      AgentMove limits policy id x ops { x with ended := true } ops [f] []
  | event {w : WorkerEvent} {rest : List WorkerEvent} (hrun : x.ended = false)
      (hidle : x.await = .idle) (hw : x.events = w :: rest) :
      AgentMove limits policy id x ops { x with
        state := (agentWorkerEvent ⟨x.state, x.stream⟩ w).state
        stream := (agentWorkerEvent ⟨x.state, x.stream⟩ w).stream
        events := rest } ops [] []
  | finish {op : Operation} {answer : Answer} {done : AgentOperation}
      {y : Entry AgentStreamState} {await : Await} {ops' : List Operation} (hop : op ∈ ops)
      (hid : op.id = id) (hrun : x.ended = false) (hidle : x.await = .idle)
      (hd : op.finish policy answer = some done)
      (h : finishAgentOperation ⟨x.state, x.stream⟩ done = .ok (y, await))
      (hsub : ∀ o ∈ ops', o ∈ ops) :
      AgentMove limits policy id x ops
        { x with state := y.state, stream := y.stream, await := await } ops' [] []
  | finishError {op : Operation} {answer : Answer} {done : AgentOperation} {error : MuxError}
      {ops' : List Operation} (hop : op ∈ ops) (hid : op.id = id) (hrun : x.ended = false)
      (hidle : x.await = .idle) (hd : op.finish policy answer = some done)
      (h : finishAgentOperation ⟨x.state, x.stream⟩ done = .error error)
      (hsub : ∀ o ∈ ops', o ∈ ops) :
      AgentMove limits policy id x ops { x with ended := true } ops' [] []
  | resolved {addresses : List SocketAddr} (hrun : x.ended = false)
      (ha : x.await = .ordered (.resolveOk id addresses) (.resolved id addresses)) :
      AgentMove limits policy id x ops
        { x with state := some (.resolved addresses), await := .idle } ops []
        [.resolveOk id addresses]
  | opened {bound : SocketAddr} (hrun : x.ended = false)
      (ha : x.await = .ordered (.openOk id bound) (.opened id)) :
      AgentMove limits policy id x ops { x with
        state := some .opened
        stream := some (Stream.new limits.receiveWindow)
        await := .idle } ops [] [.openOk id bound]

/- The states `Resolved` and `Open` follow their own answers. -/
structure Await.Announced (a : Await) : Prop where
  resolved : ∀ i addresses, a.next = .resolved i addresses →
    a = .ordered (.resolveOk i addresses) (.resolved i addresses)
  opened : ∀ i, a.next = .opened i → ∃ bound, a = .ordered (.openOk i bound) (.opened i)

theorem Await.Announced.of_done {a : Await} (h : a.next.inserts = none) : a.Announced := by
  refine ⟨fun i addresses hn => ?_, fun i hn => ?_⟩ <;> rw [hn] at h <;> cases h

theorem AgentLeaves.announced {a : Await} (h : AgentLeaves i a) : a.Announced := by
  rcases h with ⟨h, -⟩ | h
  · exact .of_done (by rw [h.2]; rfl)
  · cases h with
    | resolved => exact ⟨by rintro j as ⟨⟩; rfl, by rintro j ⟨⟩⟩
    | opened bound => exact ⟨by rintro j as ⟨⟩, by rintro j ⟨⟩; exact ⟨bound, rfl⟩⟩
    | _ => exact .of_done rfl

/- What holds of the agent alone, whatever its peer sends. -/
structure Agent.Orderly (a : Agent) : Prop where
  tidy : a.ep.queues.Tidy
  await : a.ep.await.Announced

theorem Agent.Orderly.start : Agent.start.Orderly := by
  refine ⟨⟨?_, ?_, by trivial⟩, .of_done rfl⟩ <;> simp [Agent.start, Endpoint.start, Endpoint.queues]

theorem Agent.settle_other {r : Except MuxError AgentHandled} (hi : id ≠ i)
    (hidle : a.ep.await = .idle) (hab : ∀ h, r = .ok h → h.await.About i)
    (hop : ∀ h op, r = .ok h → h.spawned = some op → op.id = i)
    (hhi : ∀ h, r = .ok h → a.highest ≤ h.highest) :
    ∃ known ended, (a.settle i r).side id = { a.side id with
      known := (a.side id).known || known, ended := (a.side id).ended || ended } ∧
      (a.settle i r).ops id = a.ops id := by
  cases r with
  | ok h =>
    have hoff : h.await.on id = .idle := (hab h rfl).2 id hi
    refine ⟨id.ble h.highest, false, ?_, ?_⟩
    · simp [side, settle, Endpoint.side, setEntry, Table.lookup_set_of_ne hi,
        hoff, hidle, ← known_rises id (hhi h rfl)]
    · cases hsp : h.spawned with
      | none => simp [ops, settle, hsp]
      | some op =>
        have hne : op.id ≠ id := by
          rw [hop h op rfl hsp]
          exact Ne.symm hi
        simp [ops, settle, hsp, hne]
  | error e =>
    exact ⟨false, true, by simp [side, settle, Endpoint.side, fail], rfl⟩

theorem AgentChange.spawns {v : AgentView} {x : Entry AgentStreamState} {r : AgentHandled}
    (h : AgentChange v x id r) :
    (∀ op, r.spawned = some op → op.id = id) ∧ v.highest ≤ r.highest := by
  cases h with
  | keep state next spawned created highest => exact ⟨by simp [spawned], highest⟩
  | create op st absent fresh notFull notBusy state await spawned created highest opId =>
    refine ⟨?_, by omega⟩
    intro o ho
    rw [spawned] at ho
    cases ho
    exact opId
  | connect address candidates resolved mem notBusy state await spawned =>
    refine ⟨?_, by omega⟩
    intro o ho
    rw [spawned] at ho
    cases ho
    rfl
  | cancel st state running cancelled next spawned created highest
  | retire st state resting gone next spawned => exact ⟨by simp [spawned], by omega⟩

theorem Agent.frame_side {f : Frame} {rest : List Frame} (hready : a.ep.ready = true)
    (hf : a.ep.frames = f :: rest) (hping : ∀ n, f ≠ .ping n) (hpong : ∀ n, f ≠ .pong n)
    (h : a' = settle { a with ep := { a.ep with frames := rest } } f.streamId
      (handleAgentFrame (a.view limits policy) (a.ep.entry f.streamId) f)) (id : ℕ) :
    AgentMove limits policy id (a.side id) (a.ops id) (a'.side id) (a'.ops id) (onLane id [f]) [] ∧
      Flows id a.ep a'.ep (onLane id [f]) [] := by
  have hidle := (ready_iff.mp hready).2
  obtain ⟨hrun, hnow⟩ := side_ready hready (id.ble a.highest) id
  have hlane := Frame.lane_streamId hping hpong
  generalize hr : handleAgentFrame (a.view limits policy) (a.ep.entry f.streamId) f = r at h
  subst h
  have hflow : Flows id a.ep
      (settle { a with ep := { a.ep with frames := rest } } f.streamId r).ep
      (onLane id [f]) [] := by
    cases r <;> exact .handled f hf rfl rfl rfl rfl
  refine ⟨?_, hflow⟩
  by_cases hi : id = f.streamId
  · rw [onLane_all (by simpa [hi] using hlane)]
    have hk : (a.side id).known = id.ble (a.view limits policy).highest := rfl
    cases r with
    | ok r =>
      have hab := (handleAgentFrame_case hr).silent.1.1.1
      subst hi
      have hops : ops (settle { a with ep := { a.ep with frames := rest } }
          f.streamId (.ok r)) f.streamId = a.ops f.streamId ++ r.spawned.toList := by
        cases hsp : r.spawned with
        | none => simp [ops, settle, hsp]
        | some op =>
          have := (handleAgentFrame_change hr).spawns.1 op hsp
          simp [ops, settle, hsp, this]
      rw [hops]
      have hmove : AgentMove limits policy f.streamId (a.side f.streamId) (a.ops f.streamId)
        _ _ [f] [] := .frame rfl hk hlane hrun hnow hr
      simpa [side, settle, hab, Endpoint.side, setEntry] using hmove
    | error e =>
      subst hi
      have hmove : AgentMove limits policy f.streamId (a.side f.streamId) (a.ops f.streamId)
        _ _ [f] [] := .frameError rfl hk hlane hrun hnow hr
      simpa [side, ops, settle, fail, Endpoint.side] using hmove
  · rw [onLane_other hlane hi]
    obtain ⟨known, ended, hside, hops⟩ := settle_other
      (a := { a with ep := { a.ep with frames := rest } }) (r := r) hi hidle
      (by rintro h rfl; exact (handleAgentFrame_case hr).silent.1.1)
      (by rintro h op rfl hsp; exact (handleAgentFrame_change hr).spawns.1 op hsp)
      (by rintro h rfl; exact (handleAgentFrame_change hr).spawns.2)
    rw [hside, hops]
    have hmove : AgentMove limits policy id (a.side id) (a.ops id) _ _ [] [] := .pass known ended
    simpa [side, Endpoint.side, ops] using hmove

theorem Agent.event_side {w : WorkerEvent} {rest : List WorkerEvent} (hready : a.ep.ready = true)
    (hw : a.ep.events = w :: rest) (h : a' = { a with ep :=
      { a.ep.setEntry w.id (agentWorkerEvent (a.ep.entry w.id) w) with events := rest } })
    (id : ℕ) :
    AgentMove limits policy id (a.side id) (a.ops id) (a'.side id) (a'.ops id) [] [] := by
  obtain ⟨hrun, hnow⟩ := side_ready hready (id.ble a.highest) id
  subst h
  by_cases hi : id = w.id
  · subst hi
    have hev : (a.side w.id).events = w :: rest.filter (fun v => decide (v.id = w.id)) := by
      simp [side, Endpoint.side, hw]
    have hmove : AgentMove limits policy w.id (a.side w.id) (a.ops w.id) _ _ [] [] :=
      .event hrun hnow hev
    simpa [side, ops, Endpoint.side, setEntry, Endpoint.entry] using hmove
  · refine .side (.of_eq ?_)
    simp [side, Endpoint.side, setEntry, Table.lookup_set_of_ne hi, hw, Ne.symm hi]

theorem mem_filter_eraseIdx {o : Operation}
    (h : o ∈ (l.eraseIdx i).filter fun op => decide (op.id = id)) :
    o ∈ l.filter fun op => decide (op.id = id) := by
  rw [List.mem_filter] at h ⊢
  exact ⟨List.mem_of_mem_eraseIdx h.1, h.2⟩

theorem filter_eraseIdx_other (hop : l[i]? = some op) (hne : op.id ≠ id) :
    (l.eraseIdx i).filter (fun o => decide (o.id = id)) = l.filter fun o => decide (o.id = id) := by
  induction l generalizing i with
  | nil => simp at hop
  | cons o os ih =>
    cases i with
    | zero =>
      cases hop
      simp [hne]
    | succ i =>
      rw [List.eraseIdx_cons_succ, List.filter_cons, List.filter_cons, ih hop]

theorem Agent.finish_side {answer : Answer} {done : AgentOperation} (hready : a.ep.ready = true)
    (hop : a.operations[i]? = some op) (hd : op.finish policy answer = some done) (id : ℕ) :
    (∀ x await, finishAgentOperation (a.ep.entry op.id) done = .ok (x, await) →
      AgentMove limits policy id (a.side id) (a.ops id)
        (side { a with
          operations := a.operations.eraseIdx i
          ep := { a.ep.setEntry op.id x with await := await } } id)
        ((a.operations.eraseIdx i).filter fun o => decide (o.id = id)) [] []) ∧
    ∀ error, finishAgentOperation (a.ep.entry op.id) done = .error error →
      AgentMove limits policy id (a.side id) (a.ops id)
        (side { a with
          operations := a.operations.eraseIdx i, ep := a.ep.fail error } id)
        ((a.operations.eraseIdx i).filter fun o => decide (o.id = id)) [] [] := by
  have hidle := (ready_iff.mp hready).2
  obtain ⟨hrun, hnow⟩ := side_ready hready (id.ble a.highest) id
  have hsub : ∀ o ∈ (a.operations.eraseIdx i).filter fun o => decide (o.id = id), o ∈ a.ops id :=
    fun o ho => mem_filter_eraseIdx ho
  have hmem : id = op.id → op ∈ a.ops id := by
    rintro rfl
    rw [ops, List.mem_filter]
    exact ⟨List.mem_of_getElem? hop, by simp⟩
  by_cases hi : id = op.id
  · subst hi
    refine ⟨fun x await hok => ?_, fun error herr => ?_⟩
    · have hab := (finishAgentOperation_case hok).await.about
      rw [Operation.finish_id hd] at hab
      have hmove : AgentMove limits policy op.id (a.side op.id) (a.ops op.id) _ _ [] [] :=
        .finish (hmem rfl) rfl hrun hnow hd hok hsub
      simpa [side, Endpoint.side, setEntry, hab.1] using hmove
    · have hmove : AgentMove limits policy op.id (a.side op.id) (a.ops op.id) _ _ [] [] :=
        .finishError (hmem rfl) rfl hrun hnow hd herr hsub
      simpa [side, Endpoint.side, fail] using hmove
  · have hops : (a.operations.eraseIdx i).filter (fun o => decide (o.id = id)) = a.ops id :=
      filter_eraseIdx_other hop (Ne.symm hi)
    rw [hops]
    refine ⟨fun x await hok => .side (.of_eq ?_), fun error herr => .side .stop⟩
    have hab := (finishAgentOperation_case hok).await.about
    rw [Operation.finish_id hd] at hab
    simp [side, Endpoint.side, setEntry, Table.lookup_set_of_ne hi, hab.2 id hi,
      hidle]

/- A frame that announces the stream `i` has been queued, and its entry follows. -/
theorem Agent.announced_side {f : Frame} {next : Next} (ha : a.ep.await = .ordered f next)
    (hf : f.lane = some i) (hr : a.ep.resume caps = some (ep, next)) {y : Entry AgentStreamState}
    (hmove : (a.side i).ended = false → (a.side i).await = .ordered f next →
      AgentMove limits policy i (a.side i) (a.ops i)
        { a.side i with state := y.state, stream := y.stream, await := .idle } (a.ops i) [] [f])
    (id : ℕ) :
    ∃ out, AgentMove limits policy id (a.side id) (a.ops id)
        ((ep.setEntry i y).side (id.ble a.highest) id) (a.ops id) [] out ∧
      Flows id a.ep (ep.setEntry i y) [] out := by
  obtain ⟨hend, rfl⟩ := resume_ordered ha hr
  refine ⟨onLane id [f], ?_, .queued _ rfl rfl rfl rfl rfl⟩
  by_cases hi : id = i
  · subst hi
    rw [onLane_all (by simpa using hf)]
    have hmoved := hmove (by simp [side, Endpoint.side, hend])
      (by simp [side, Endpoint.side, ha, Await.on, hf])
    simpa [side, Endpoint.side, setEntry, enqueue] using hmoved
  · rw [onLane_other hf hi]
    refine .side (.of_eq ?_)
    simp [side, Endpoint.side, setEntry, enqueue,
      Table.lookup_set_of_ne hi, ha, Await.on, hf, Ne.symm hi]

/-- Every step of the agent moves every stream by one of the listed moves. -/
theorem Agent.step_side (ho : a.Orderly) (h : a.step limits policy caps act = some a') (id : ℕ) :
    ∃ inp out, AgentMove limits policy id (a.side id) (a.ops id) (a'.side id) (a'.ops id) inp out ∧
      Flows id a.ep a'.ep inp out := by
  cases step_cases h with
  | turn ht =>
    obtain ⟨out, hmove, hflow⟩ := ht.side ho.tidy.control (id.ble a.highest) id
    rw [ht.taken_none id] at hflow
    exact ⟨[], out, .side hmove, hflow⟩
  | frame hready hf hping hpong => exact ⟨_, _, frame_side hready hf hping hpong rfl id⟩
  | event hready hw =>
    exact ⟨[], [], event_side hready hw rfl id, .same rfl rfl rfl rfl rfl⟩
  | finish hready hop hd hok =>
    exact ⟨[], [], (finish_side hready hop hd id).1 _ _ hok, .same rfl rfl rfl rfl rfl⟩
  | finishError hready hop hd herr =>
    exact ⟨[], [], (finish_side hready hop hd id).2 _ herr, .same rfl rfl rfl rfl rfl⟩
  | joinRelay => exact ⟨[], [], .side (.of_eq rfl), .same rfl rfl rfl rfl rfl⟩
  | resolved hr =>
    have ha := ho.await.resolved _ _ (resume_next hr)
    obtain ⟨-, rfl⟩ := resume_ordered ha hr
    exact ⟨[], announced_side ha rfl hr (fun hrun hnow => .resolved hrun hnow) id⟩
  | opened hr =>
    obtain ⟨bound, ha⟩ := ho.await.opened _ (resume_next hr)
    exact ⟨[], announced_side ha rfl hr (fun hrun hnow => .opened hrun hnow) id⟩

theorem Agent.Orderly.step (ho : a.Orderly) (h : a.step limits policy caps act = some a') :
    a'.Orderly := by
  have hq := step_queues ho.tidy h
  refine ⟨ho.tidy.move (fun _ _ hl => hl.tidy) hq, ?_⟩
  have hawait := hq.await_inv (Q := Await.Announced) (.of_done rfl) (fun _ _ hl => hl.announced)
    (fun _ => .of_done rfl) (fun _ => .of_done rfl) (fun _ _ => .of_done rfl) ho.await
  exact hawait

end Alighieri.Rdp
