import Alighieri.Rdp.Steps

/-!
# What the handlers do

The outcomes of `handle_client_command`, `handle_client_frame`, `handle_agent_frame`
and `finish_agent_operation` for one stream: the state found, the state left, and
what is queued or waited for.
-/

namespace Alighieri.Rdp
open Net

variable {limits : NegotiatedLimits} {standing : Standing} {stream : Option Stream} {id : ℕ}
  {x : Entry AgentStreamState} {r : AgentHandled} {v : AgentView} {stream' : Option Stream}
  {await : Await} {f : Frame} {alive : Bool}

/- DATA, SHUTDOWN_WRITE and WINDOW_UPDATE on a stream, at either end. -/
inductive FlowCase (limits : NegotiatedLimits) (standing : Standing) (stream : Option Stream) :
    Frame → Option Stream → Await → Prop where
  | ignored {f : Frame} (h : standing = .ignores) : FlowCase limits standing stream f stream .idle
  | data {id : ℕ} {payload : Bytes} (h : standing = .takes) (hle : payload.length ≤ limits.maxData) :
      FlowCase limits standing stream (.data id payload) stream (.creditGate id payload)
  | shutdown {id : ℕ} {s s' : Stream} (h : standing = .takes) (hs : stream = some s)
      (hf : s.finishInbound = .ok s') :
      FlowCase limits standing stream (.shutdownWrite id) (some s') .idle
  | credit {id credit : ℕ} {s s' : Stream} (h : standing = .takes) (hs : stream = some s)
      (hc : s.addCredit credit = .ok s') :
      FlowCase limits standing stream (.windowUpdate id credit) (some s') .idle
  | missing {f : Frame} (h : standing = .takes) (hs : stream = none) :
      FlowCase limits standing stream f none .idle

theorem handleData_case {payload : Bytes} (h : handleData limits standing id payload = .ok await) :
    FlowCase limits standing stream (.data id payload) stream await := by
  unfold handleData at h
  split at h
  · cases h
  cases standing with
  | takes =>
    cases h
    exact .data rfl (by omega)
  | ignores =>
    cases h
    exact .ignored rfl
  | early | unknown => cases h

theorem handleOnStream_case {word : String} {op : Stream → Except MuxError Stream}
    (h : handleOnStream word op standing stream = .ok stream')
    (hop : ∀ s s', standing = .takes → stream = some s → op s = .ok s' →
      FlowCase limits standing stream f (some s') .idle) :
    FlowCase limits standing stream f stream' .idle := by
  cases standing with
  | takes =>
    cases stream with
    | none =>
      cases h
      exact .missing rfl rfl
    | some s =>
      simp only [handleOnStream] at h
      cases hs : op s with
      | error e => simp [hs, Except.map] at h
      | ok s' =>
        simp only [hs, Except.map] at h
        cases h
        exact hop s s' rfl rfl hs
  | ignores =>
    cases h
    exact .ignored rfl
  | early | unknown => cases h

theorem handleShutdownWrite_case (id : ℕ) (h : handleShutdownWrite standing stream = .ok stream') :
    FlowCase limits standing stream (.shutdownWrite id) stream' .idle :=
  handleOnStream_case h fun _ _ => .shutdown

theorem handleWindowUpdate_case {credit : ℕ} (id : ℕ)
    (h : handleWindowUpdate credit standing stream = .ok stream') :
    FlowCase limits standing stream (.windowUpdate id credit) stream' .idle :=
  handleOnStream_case h fun _ _ => .credit

def ClientStreamState.early : ClientStreamState → Bool
  | .resolving _ | .resolved _ | .opening _ _ => true
  | _ => false

/- The refusals of a command: for want of room, and of an `open` by what its stream offers. -/
def ClientCommand.Refused (full : Bool) (x : Entry ClientStreamState) : ClientCommand → Reply → Prop
  | .resolve _ _ _, .resolveFailed _ => full = true
  | .openIp _ _, .openFailed _ permit => full = true ∧ permit = false
  | .openTo _ address permit, .openFailed error permit' => permit' = permit ∧
      error ≠ .resourceLimit ∧ ∀ a, error = .invalidCandidate a →
        ∃ candidates, x.state = some (.resolved candidates) ∧ address ∉ candidates
  | _, _ => False

inductive CommandCase (full : Bool) (x : Entry ClientStreamState) :
    ClientHandled → ClientCommand → Prop where
  | keep {cmd : ClientCommand} {reply : Option Reply}
      (hr : ∀ a, reply = some a → cmd.Refused full x a) : CommandCase full x ⟨x, .idle, reply⟩ cmd
  | resolve {id port : ℕ} {hostname : Text} (hx : x.state = none) :
      CommandCase full x ⟨⟨some (.resolving port), x.stream⟩,
        .ordered (.resolve id port hostname) .done, none⟩ (.resolve id hostname port)
  | openTo {id : ℕ} {address : SocketAddr} {candidates : List SocketAddr} {permit : Bool}
      (hx : x.state = some (.resolved candidates)) (hmem : address ∈ candidates) :
      CommandCase full x ⟨⟨some (.opening (some candidates) permit), x.stream⟩,
        .ordered (.openTo id address) .done, none⟩ (.openTo id address permit)
  | openIp {id : ℕ} {address : SocketAddr} (hx : x.state = none) :
      CommandCase full x ⟨⟨some (.opening none true), x.stream⟩,
        .ordered (.openTo id address) .done, none⟩ (.openIp id address)
  | closeOpened {id : ℕ} {permit : Bool} (hx : x.state = some (.opened permit)) :
      CommandCase full x ⟨⟨some (.closing permit), x.stream.map (·.sessionFailure cancelled)⟩,
        .closeGate id .cancelled, none⟩ (.close id)
  | closeEarly {id : ℕ} {st : ClientStreamState} {reply : Option Reply} (permit : Bool)
      (hx : x.state = some st) (hst : st.early = true)
      (hpermit : permit = true → ∃ candidates, st = .opening candidates true)
      (hr : reply = none ∨ reply = some (.resolveFailed cancelled) ∨
        reply = some (.openFailed cancelled false)) :
      CommandCase full x ⟨⟨some (.closing permit), x.stream⟩,
        .ordered (.close id .cancelled) .done, reply⟩ (.close id)

theorem handleClientCommand_case {full : Bool} {x : Entry ClientStreamState} {cmd : ClientCommand}
    {r : ClientHandled} (h : handleClientCommand full x cmd = .ok r) :
    CommandCase full x r cmd := by
  obtain ⟨state, stream⟩ := x
  cases cmd with
  | resolve id hostname port =>
    obtain ⟨_, -, h⟩ := bind_ok h
    split at h
    · rename_i hfull
      cases h
      exact .keep (by rintro a ⟨⟩; exact hfull)
    · split at h
      · cases h
      rename_i hnone
      split at h
      · cases h
      · cases h
        exact .resolve (by simpa using hnone)
  | openTo id address permit =>
    simp only [handleClientCommand] at h
    split at h
    · cases h
      exact .keep (by rintro a ⟨⟩; exact ⟨rfl, nofun, nofun⟩)
    · split at h
      · rename_i hmem
        cases h
        exact .openTo rfl hmem
      · rename_i hmem
        cases h
        exact .keep (by rintro a ⟨⟩; exact ⟨rfl, nofun, fun _ _ => ⟨_, rfl, hmem⟩⟩)
    · cases h
      exact .keep (by rintro a ⟨⟩; exact ⟨rfl, nofun, nofun⟩)
  | openIp id address =>
    obtain ⟨_, -, h⟩ := bind_ok h
    split at h
    · rename_i hfull
      cases h
      exact .keep (by rintro a ⟨⟩; exact ⟨hfull, rfl⟩)
    · split at h
      · cases h
      rename_i hnone
      cases h
      exact .openIp (by simpa using hnone)
  | close id =>
    simp only [handleClientCommand] at h
    split at h <;> cases h
    · exact .keep nofun
    · exact .keep nofun
    · exact .closeOpened rfl
    · rename_i permit
      exact .closeEarly permit rfl rfl (fun hp => ⟨_, by rw [hp]⟩) (.inr (.inr rfl))
    · exact .closeEarly false rfl rfl nofun (.inr (.inl rfl))
    · exact .closeEarly false rfl rfl nofun (.inl rfl)

inductive ClientFrameCase (limits : NegotiatedLimits) (alive : Bool) (x : Entry ClientStreamState) :
    ClientHandled → Frame → Prop where
  | flow {f : Frame} {s : Option Stream} {await : Await}
      (hc : FlowCase limits (ClientStreamState.standing x.state) x.stream f s await) :
      ClientFrameCase limits alive x ⟨⟨x.state, s⟩, await, none⟩ f
  | late {f : Frame} {permit : Bool} (hx : x.state = some (.closing permit))
      (hf : f.messageType = .resolveOk ∨ f.messageType = .openOk ∨ f.messageType = .openError) :
      ClientFrameCase limits alive x ⟨x, .idle, none⟩ f
  | resolved {id port : ℕ} {addresses : List SocketAddr} (hx : x.state = some (.resolving port))
      (hne : addresses ≠ []) :
      ClientFrameCase limits alive x
        ⟨⟨some (.resolved addresses), x.stream⟩, .idle, some (.resolved addresses)⟩
        (.resolveOk id addresses)
  | emptied {id port : ℕ} {addresses : List SocketAddr} (hx : x.state = some (.resolving port))
      (he : addresses = []) :
      ClientFrameCase limits alive x
        ⟨⟨none, x.stream⟩, .idle, some (.resolveFailed (.remote .hostUnreachable
          "remote resolution returned no addresses".toList))⟩ (.resolveOk id addresses)
  | abandoned {id port : ℕ} {addresses : List SocketAddr} (hx : x.state = some (.resolving port))
      (hne : addresses ≠ []) (ha : alive = false) :
      ClientFrameCase limits alive x
        ⟨⟨some (.closing false), x.stream⟩, .ordered (.close id .cancelled) .done, none⟩
        (.resolveOk id addresses)
  | opened {id : ℕ} {bound : SocketAddr} {candidates : Option (List SocketAddr)} {permit : Bool}
      (hx : x.state = some (.opening candidates permit)) :
      ClientFrameCase limits alive x
        ⟨⟨some (.opened permit), some (if alive then Stream.new limits.receiveWindow
          else (Stream.new limits.receiveWindow).dropLocal)⟩, .idle,
          if alive then some (.opened bound) else none⟩ (.openOk id bound)
  | resolveFailed {id port : ℕ} {code : OpenErrorCode} {diagnostic : Text}
      (hx : x.state = some (.resolving port)) :
      ClientFrameCase limits alive x
        ⟨⟨none, x.stream⟩, .idle, some (.resolveFailed (.remote code diagnostic))⟩
        (.openError id code diagnostic)
  | openFailed {id : ℕ} {code : OpenErrorCode} {diagnostic : Text}
      {candidates : Option (List SocketAddr)} {permit : Bool}
      (hx : x.state = some (.opening candidates permit)) :
      ClientFrameCase limits alive x ⟨⟨candidates.map .resolved, x.stream⟩, .idle,
        some (.openFailed (.remote code diagnostic) permit)⟩ (.openError id code diagnostic)
  | closeLast {id : ℕ} {reason : CloseReason} {permit : Bool}
      (hx : x.state = some (.closing permit)) :
      ClientFrameCase limits alive x ⟨⟨none, x.stream⟩, .idle, none⟩ (.close id reason)
  | closeOpened {id : ℕ} {reason : CloseReason} {permit : Bool}
      (hx : x.state = some (.opened permit)) :
      ClientFrameCase limits alive x
        ⟨⟨none, x.stream.map (·.remoteClose reason)⟩, .closeGate id .normal, none⟩
        (.close id reason)
  | closeEarly {id : ℕ} {reason : CloseReason} {st : ClientStreamState} (hx : x.state = some st)
      (hst : st.early = true) :
      ClientFrameCase limits alive x ⟨⟨none, x.stream⟩, .ordered (.close id .normal) .done,
        failClientState (.sessionClosed ("remote closed stream: " ++ reason.debug)) st⟩
        (.close id reason)

theorem clientResolveOk_case {x : Entry ClientStreamState} {addresses : List SocketAddr}
    {r : ClientHandled} (h : clientResolveOk alive x id addresses = .ok r) :
    ClientFrameCase limits alive x r (.resolveOk id addresses) := by
  obtain ⟨state, stream⟩ := x
  unfold clientResolveOk at h
  split at h
  · rename_i hx
    split at h
    · cases h
    split at h
    · rename_i he
      cases h
      exact .emptied hx he
    · rename_i hne
      cases alive <;> cases h
      · exact .abandoned hx hne rfl
      · exact .resolved hx hne
  · rename_i hx
    cases h
    exact .late hx (.inl rfl)
  · cases h
  · cases h

theorem handleClientFrame_case {x : Entry ClientStreamState} {r : ClientHandled}
    (h : handleClientFrame limits alive x f = .ok r) : ClientFrameCase limits alive x r f := by
  cases f with
  | resolveOk => exact clientResolveOk_case h
  | openOk =>
    obtain ⟨state, stream⟩ := x
    simp only [handleClientFrame, clientOpenOk] at h
    split at h
    · cases h
      exact .opened rfl
    · cases h
      exact .late rfl (.inr (.inl rfl))
    · cases h
    · cases h
  | openError =>
    obtain ⟨state, stream⟩ := x
    simp only [handleClientFrame, clientOpenError] at h
    split at h
    · cases h
    · cases h
      exact .resolveFailed rfl
    · cases h
      exact .openFailed rfl
    · cases h
      exact .late rfl (.inr (.inr rfl))
    · cases h
  | data =>
    obtain ⟨await, ha, h⟩ := bind_ok h
    cases h
    exact .flow (handleData_case ha)
  | shutdownWrite id =>
    obtain ⟨s, ha, h⟩ := bind_ok h
    cases h
    exact .flow (handleShutdownWrite_case id ha)
  | windowUpdate id =>
    obtain ⟨s, ha, h⟩ := bind_ok h
    cases h
    exact .flow (handleWindowUpdate_case id ha)
  | close id reason =>
    obtain ⟨state, stream⟩ := x
    simp only [handleClientFrame, clientClose] at h
    split at h
    · cases h
    · cases h
      exact .closeLast rfl
    · cases h
      exact .closeOpened rfl
    · rename_i st hc ho
      cases h
      refine .closeEarly rfl ?_
      cases st with
      | closing permit => exact absurd rfl (hc permit)
      | opened permit => exact absurd rfl (ho permit)
      | _ => rfl
  | hello | resolve | openTo | ping | pong => cases h

inductive AgentFrameCase (v : AgentView) (x : Entry AgentStreamState) :
    AgentHandled → Frame → Prop where
  | flow {f : Frame} {s : Option Stream} {await : Await}
      (hc : FlowCase v.limits (AgentStreamState.standing x.state) x.stream f s await) :
      AgentFrameCase v x ⟨⟨x.state, s⟩, await, v.highest, none, false⟩ f
  | refusedNew {f : Frame} {id : ℕ} (code : OpenErrorCode) (diagnostic : Text)
      (hf : (∃ port hostname, f = .resolve id port hostname) ∨ ∃ address, f = .openTo id address)
      (hx : x.state = none) (hnew : v.highest < id) :
      AgentFrameCase v x
        ⟨⟨none, x.stream⟩, .ordered (openErrorFrame id code diagnostic) .done, id, none, false⟩ f
  | resolve {id port : ℕ} {hostname : Text} (hx : x.state = none) (hnew : v.highest < id)
      (hfull : v.full = false) (hbusy : v.busy = false) :
      AgentFrameCase v x
        ⟨⟨some .resolving, x.stream⟩, .idle, id, some (.resolve id hostname port), true⟩
        (.resolve id port hostname)
  | connectNew {id : ℕ} {address : SocketAddr} (hx : x.state = none) (hnew : v.highest < id)
      (hfull : v.full = false) (hbusy : v.busy = false)
      (hallow : agentAddressAllowed v.policy (canonicalizeAddress address).ip = true) :
      AgentFrameCase v x ⟨⟨some (.opening none), x.stream⟩, .idle, id,
        some (.connect id (canonicalizeAddress address)), true⟩ (.openTo id address)
  | refused {id : ℕ} {address : SocketAddr} {candidates : List SocketAddr} (code : OpenErrorCode)
      (diagnostic : Text) (hx : x.state = some (.resolved candidates)) :
      AgentFrameCase v x
        ⟨x, .ordered (openErrorFrame id code diagnostic) .done, v.highest, none, false⟩
        (.openTo id address)
  | connect {id : ℕ} {address : SocketAddr} {candidates : List SocketAddr}
      (hx : x.state = some (.resolved candidates))
      (hmem : canonicalizeAddress address ∈ candidates) (hbusy : v.busy = false)
      (hallow : agentAddressAllowed v.policy (canonicalizeAddress address).ip = true) :
      AgentFrameCase v x ⟨⟨some (.opening (some candidates)), x.stream⟩, .idle, v.highest,
        some (.connect id (canonicalizeAddress address)), false⟩ (.openTo id address)
  | closeStale {id : ℕ} {reason : CloseReason} (hx : x.state = none) (hold : id ≤ v.highest) :
      AgentFrameCase v x
        ⟨⟨none, x.stream⟩, .ordered (.close id .normal) .done, v.highest, none, false⟩
        (.close id reason)
  | closeLast {id : ℕ} {reason : CloseReason} (hx : x.state = some .closing) :
      AgentFrameCase v x ⟨⟨none, x.stream⟩, .idle, v.highest, none, false⟩ (.close id reason)
  | closeOpened {id : ℕ} {reason : CloseReason} (hx : x.state = some .opened) :
      AgentFrameCase v x ⟨⟨none, x.stream.map (·.remoteClose reason)⟩, .closeGate id .normal,
        v.highest, none, false⟩ (.close id reason)
  | cancel {id : ℕ} {reason : CloseReason}
      (hx : x.state = some .resolving ∨ ∃ candidates, x.state = some (.opening candidates)) :
      AgentFrameCase v x
        ⟨⟨some .cancelled, x.stream⟩, .ordered (.close id .normal) .done, v.highest, none, false⟩
        (.close id reason)
  | closeResolved {id : ℕ} {reason : CloseReason} {candidates : List SocketAddr}
      (hx : x.state = some (.resolved candidates)) :
      AgentFrameCase v x
        ⟨⟨none, x.stream⟩, .ordered (.close id .normal) .done, v.highest, none, false⟩
        (.close id reason)
  | closeCancelled {id : ℕ} {reason : CloseReason} (hx : x.state = some .cancelled) :
      AgentFrameCase v x ⟨x, .idle, v.highest, none, false⟩ (.close id reason)

theorem registerPeerStreamId_ok {highest h : ℕ} (hr : registerPeerStreamId id highest = .ok h) :
    highest < id ∧ h = id := by
  unfold registerPeerStreamId at hr
  split at hr
  · cases hr
  · cases hr
    exact ⟨by omega, rfl⟩

theorem agentResolve_case {port : ℕ} {hostname : Text}
    (h : agentResolve v x id port hostname = .ok r) :
    AgentFrameCase v x r (.resolve id port hostname) := by
  obtain ⟨state, stream⟩ := x
  obtain ⟨_, -, h⟩ := bind_ok h
  split at h
  · cases h
  rename_i hnone
  have hnone' : state = none := by simpa using hnone
  subst hnone'
  obtain ⟨highest, hreg, h⟩ := bind_ok h
  obtain ⟨hnew, rfl⟩ := registerPeerStreamId_ok hreg
  split at h
  · cases h
    exact .refusedNew _ _ (.inl ⟨port, hostname, rfl⟩) rfl hnew
  · rename_i hroom
    simp only [Bool.or_eq_true, not_or, Bool.not_eq_true] at hroom
    cases h
    exact .resolve rfl hnew hroom.1 hroom.2

theorem agentOpen_case {address : SocketAddr} (h : agentOpen v x id address = .ok r) :
    AgentFrameCase v x r (.openTo id address) := by
  obtain ⟨state, stream⟩ := x
  obtain ⟨_, -, h⟩ := bind_ok h
  simp only at h
  split at h
  · split at h
    · rename_i hmem
      cases h
      unfold agentConnect
      split
      · exact .refused _ _ rfl
      · rename_i hbusy
        split
        · exact .refused _ _ rfl
        · rename_i hallow
          exact .connect rfl hmem (by simpa using hbusy)
            (by simpa using hallow)
    · cases h
      exact .refused _ _ rfl
  · obtain ⟨highest, hreg, h⟩ := bind_ok h
    obtain ⟨hnew, rfl⟩ := registerPeerStreamId_ok hreg
    split at h
    · cases h
      exact .refusedNew _ _ (.inr ⟨address, rfl⟩) rfl hnew
    · rename_i hfull
      cases h
      unfold agentConnect
      split
      · exact .refusedNew _ _ (.inr ⟨address, rfl⟩) rfl hnew
      · rename_i hbusy
        split
        · exact .refusedNew _ _ (.inr ⟨address, rfl⟩) rfl hnew
        · rename_i hallow
          exact .connectNew rfl hnew (by simpa using hfull)
            (by simpa using hbusy) (by simpa using hallow)
  · cases h

theorem agentClose_case {reason : CloseReason} (h : agentClose v x id reason = .ok r) :
    AgentFrameCase v x r (.close id reason) := by
  obtain ⟨state, stream⟩ := x
  obtain ⟨_, -, h⟩ := bind_ok h
  simp only at h
  split at h
  · split at h
    · rename_i hold
      cases h
      exact .closeStale rfl hold
    · cases h
  · cases h
    exact .closeLast rfl
  · cases h
    exact .closeOpened rfl
  · cases h
    exact .cancel (.inl rfl)
  · cases h
    exact .cancel (.inr ⟨_, rfl⟩)
  · cases h
    exact .closeResolved rfl
  · cases h
    exact .closeCancelled rfl

theorem handleAgentFrame_case (h : handleAgentFrame v x f = .ok r) : AgentFrameCase v x r f := by
  cases f with
  | resolve => exact agentResolve_case h
  | openTo => exact agentOpen_case h
  | close => exact agentClose_case h
  | data =>
    obtain ⟨await, ha, h⟩ := bind_ok h
    cases h
    exact .flow (handleData_case ha)
  | shutdownWrite id =>
    obtain ⟨s, ha, h⟩ := bind_ok h
    cases h
    exact .flow (handleShutdownWrite_case id ha)
  | windowUpdate id =>
    obtain ⟨s, ha, h⟩ := bind_ok h
    cases h
    exact .flow (handleWindowUpdate_case id ha)
  | hello | resolveOk | openOk | openError | ping | pong => cases h

inductive FinishCase (x : Entry AgentStreamState) :
    Entry AgentStreamState → Await → AgentOperation → Prop where
  | gone {done : AgentOperation} (hx : x.state = none ∨ x.state = some .cancelled) :
      FinishCase x ⟨none, x.stream⟩ .idle done
  | resolved {id : ℕ} {addresses : List SocketAddr} (hx : x.state = some .resolving)
      (hne : addresses ≠ []) :
      FinishCase x ⟨none, x.stream⟩ (.ordered (.resolveOk id addresses) (.resolved id addresses))
        (.resolved id (.ok addresses))
  | unresolved {id : ℕ} {result : Except IoFault (List SocketAddr)} (code : OpenErrorCode)
      (diagnostic : Text) (hx : x.state = some .resolving) :
      FinishCase x ⟨none, x.stream⟩ (.ordered (openErrorFrame id code diagnostic) .done)
        (.resolved id result)
  | opened {id : ℕ} {candidates : Option (List SocketAddr)} (bound : SocketAddr)
      (hx : x.state = some (.opening candidates)) :
      FinishCase x ⟨none, x.stream⟩ (.ordered (.openOk id (canonicalizeAddress bound)) (.opened id))
        (.opened id (.ok (.ok bound)))
  | unopened {id : ℕ} {result : Except IoFault (Except IoFault SocketAddr)}
      {candidates : Option (List SocketAddr)} (code : OpenErrorCode) (diagnostic : Text)
      (hx : x.state = some (.opening candidates)) :
      FinishCase x ⟨candidates.map .resolved, x.stream⟩
        (.ordered (openErrorFrame id code diagnostic) .done) (.opened id result)

theorem finishAgentOperation_case {y : Entry AgentStreamState} {done : AgentOperation}
    (h : finishAgentOperation x done = .ok (y, await)) : FinishCase x y await done := by
  obtain ⟨state, stream⟩ := x
  unfold finishAgentOperation at h
  simp only at h
  split at h
  · split at h
    · cases h
      exact .gone (.inl rfl)
    · cases h
      exact .gone (.inr rfl)
    · split at h <;> cases h
      · exact .unresolved _ _ rfl
      · rename_i hne
        exact .resolved rfl hne
      · exact .unresolved _ _ rfl
    · cases h
  · split at h
    · cases h
      exact .gone (.inl rfl)
    · cases h
      exact .gone (.inr rfl)
    · split at h <;> cases h
      · exact .opened _ rfl
      · exact .unopened _ _ rfl
      · exact .unopened _ _ rfl
    · cases h

end Alighieri.Rdp
