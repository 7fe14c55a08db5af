import Alighieri.Rdp.Speech

/-!
# What the agent says of its streams

As at the client, every move of the agent is a step of the dialogue, or it passes over an
identifier that is lower than one its peer has used.
-/

namespace Alighieri.Rdp
open Net Dialogue Side

variable {v : AgentView} {r : AgentHandled} {inp out : List Frame} {f : Frame}

variable {limits : NegotiatedLimits} {policy : AgentPolicy} {id : ℕ} {x x' : Side AgentStreamState}

theorem handleAgentFrame_ignored {e : Entry AgentStreamState} (h : handleAgentFrame v e f = .ok r)
    (hst : e.state = some .closing) (hr : r.entry.state = e.state) : f.sign = .flow := by
  obtain ⟨state, stream⟩ := e
  cases hst
  cases f with
  | close =>
    obtain ⟨_, -, h⟩ := bind_ok h
    cases h
    cases hr
  | resolve | openTo =>
    obtain ⟨_, -, h⟩ := bind_ok h
    cases h
  | resolveOk | openOk | openError => cases h
  | _ => rfl

theorem AgentStreamState.ignores_closing {state : Option AgentStreamState}
    (h : AgentStreamState.standing state = .ignores) : state = some .closing := by
  cases state with
  | none => cases h
  | some st =>
    cases st with
    | closing => rfl
    | _ => cases h

theorem AgentFrameCase.speaks (hx : x.Sound limits id) (hidle : x.await = .idle)
    (hk : x.known = id.ble v.highest) (hf : f.lane = some id)
    (hok : handleAgentFrame v ⟨x.state, x.stream⟩ f = .ok r)
    (hl : x'.Left r.entry.state r.entry.stream r.await (id.ble r.highest)) :
    Side.Speaks id x x' [] (AgentStep x.mode x.known [f.sign] x'.mode x'.known) := by
  have hnone : x.state = none → x.mode = .idle := fun h => mode_none h (by rw [hidle]; rfl)
  have hcase := handleAgentFrame_case hok
  -- an identifier above the highest one is not known yet, and is known from now on
  have hnew : ∀ {i}, v.highest < i → i = id → x.known = false := by
    intro i hi he
    rw [hk, ← Bool.not_eq_true, Nat.ble_eq]
    omega
  have hself : id.ble id = true := Nat.ble_eq.mpr (Nat.le_refl id)
  cases hcase with
  | flow hc =>
    rw [← hk] at hl
    rcases hc.hushed hx hidle AgentStreamState.takes_opened hl with
      ⟨hst, hl⟩ | ⟨hsign, hsaid, hmode, hopen⟩
    · have hcl := AgentStreamState.ignores_closing hst
      have hsign := handleAgentFrame_ignored hok hcl rfl
      refine .answer hidle hl ?_
      rw [mode_some hcl, mode_some (hl.state.trans hcl), hl.stream, hl.known, hsign]
      exact .flow _ (.inr rfl)
    · refine ⟨_, _, hsaid, ?_⟩
      rw [hmode, hl.known, hsign]
      exact .flow _ (hopen.imp_right fun hm => by rw [hm]; rfl)
  | refusedNew code diagnostic hf' hst hhigh =>
    rename_i i
    have hi : i = id := by
      rcases hf' with ⟨port, hostname, rfl⟩ | ⟨address, rfl⟩ <;> exact Option.some.inj hf
    have hsign : f.sign = .resolve ∨ f.sign = .openTo := by
      rcases hf' with ⟨port, hostname, rfl⟩ | ⟨address, rfl⟩
      · exact .inl rfl
      · exact .inr rfl
    rw [hi, hself] at hl
    refine .answer hidle hl ?_
    rw [hnone hst, hl.idle rfl, hl.known, hnew hhigh hi]
    exact .refuse hsign
  | resolve hst hhigh | connectNew hst hhigh =>
    cases hf
    refine .answer hidle hl ?_
    have hk' : x'.known = true := hl.known.trans hself
    rw [hnone hst, mode_some hl.state, hk', hnew hhigh rfl]
    first | exact .resolve | exact .connect
  | refused code diagnostic hst | closeCancelled hst =>
    rw [← hk] at hl
    refine .answer hidle hl ?_
    rw [mode_some hst, mode_some (hl.state.trans hst), hl.known]
    first | exact .refuseKept _ | exact .closeCancelled _
  | connect hst =>
    rw [← hk] at hl
    refine .answer hidle hl ?_
    rw [mode_some hst, mode_some hl.state, hl.known]
    exact .connectKept _
  | closeStale hst hold =>
    cases hf
    rw [← hk] at hl
    have hkn : x.known = true := by
      rw [hk, Nat.ble_eq]
      exact hold
    refine .answer hidle hl ?_
    rw [hnone hst, hl.idle rfl, hl.known, hkn]
    exact .closeStale
  | closeLast hst | closeResolved hst =>
    rw [← hk] at hl
    refine .answer hidle hl ?_
    rw [mode_some hst, hl.idle rfl, hl.known]
    first | exact .closeLast _ rfl | exact .closeResolved _
  | closeOpened hst =>
    rename_i reason
    obtain ⟨s, hs, -⟩ := hx.opened _ hst rfl
    rw [← hk] at hl
    have hs' : x'.stream = some (s.remoteClose reason) := by rw [hl.stream, hs]; rfl
    refine ⟨_, _, .gate hidle hs hs' rfl hl.await, ?_⟩
    have hq' : (s.remoteClose reason).closeQueued = s.closeQueued := rfl
    rw [mode_opened hst rfl hs, hl.idle rfl, hl.known, hq']
    cases s.closeQueued with
    | false => exact .closeOpened _
    | true => exact .closeLast _ rfl
  | cancel hst =>
    rw [← hk] at hl
    refine .answer hidle hl ?_
    rcases hst with hst | ⟨candidates, hst⟩
    · rw [mode_some hst, mode_some hl.state, hl.known]
      exact .cancel _ (.inl rfl)
    · rw [mode_some hst, mode_some hl.state, hl.known]
      exact .cancel _ (.inr ⟨_, rfl⟩)

theorem FinishCase.speaks (hidle : x.await = .idle) {done : AgentOperation}
    {y : Entry AgentStreamState} {await : Await} (hr : FinishCase ⟨x.state, x.stream⟩ y await done)
    (hl : x'.Left y.state y.stream await x.known) :
    Side.Speaks id x x' [] (AgentStep x.mode x.known [] x'.mode x'.known) := by
  cases hr with
  | gone hst =>
    refine .answer hidle hl ?_
    rw [hl.idle rfl, hl.known]
    rcases hst with hst | hst
    · rw [mode_none hst (by rw [hidle]; rfl)]
      exact .own _ (.stay _)
    · rw [mode_some hst]
      exact .finishGone _
  | resolved hst hne | opened bound hst =>
    refine .answer hidle hl ?_
    rw [mode_some hst, hl.known, mode, hl.state, hl.await]
    first | exact .resolved _ | exact .opened _ _
  | unresolved code diagnostic hst =>
    refine .answer hidle hl ?_
    rw [mode_some hst, hl.idle rfl, hl.known]
    exact .unresolved _
  | unopened code diagnostic hst =>
    rename_i candidates
    refine .answer hidle hl ?_
    rw [mode_some hst, hl.known]
    cases candidates with
    | none =>
      rw [hl.idle rfl]
      exact .unopened _ _
    | some =>
      rw [mode_some hl.state]
      exact .unopened _ _

theorem Side.Sound.announced (hx : x.Sound limits id) {next : Next}
    (ha : x.await = .ordered f next) (hn : next.inserts ≠ none) :
    x.state = none ∧ x.stream = none ∧ x.hand id = [f] ∧ x.owes = [] := by
  have hp : x.await.next.inserts ≠ none := by rw [ha]; exact hn
  obtain ⟨hst, hs⟩ := hx.pending hp
  refine ⟨hst, hs, ?_, ?_⟩
  · simp [hand, hs, ha, Await.hand]
  · simp [owes, ha]

/- A move of the agent, read in the dialogue: a step, or another identifier is announced that
is higher than this unused one. -/
def AgentSpeaks (id : ℕ) (x x' : Side AgentStreamState) (inp out : List Frame) : Prop :=
  ∃ new said, Said id x x' out new said ∧
    (AgentStep x.mode x.known (inp.map Frame.sign) x'.mode x'.known said ∨
      (inp = [] ∧ said = [] ∧ x.known = false ∧ x'.known = true ∧ x.mode = .idle ∧
        x'.mode = .idle))

theorem AgentSpeaks.of_step
    (h : Side.Speaks id x x' out (AgentStep x.mode x.known (inp.map Frame.sign) x'.mode x'.known)) :
    AgentSpeaks id x x' inp out := h.imp fun _ hstep => .inl hstep

/-- Every move of the agent is a step of the dialogue, or passes over the identifier. -/
theorem AgentMove.speaks (hx : x.Sound limits id) (hp : x.Poised id) {ops ops' : List Operation}
    (h : AgentMove limits policy id x ops x' ops' inp out)
    (hok : ∀ f ∈ inp, ∀ v : AgentView, v.limits = limits → x.known = id.ble v.highest →
      ∃ r, handleAgentFrame v ⟨x.state, x.stream⟩ f = .ok r) : AgentSpeaks id x x' inp out := by
  cases h with
  | side h =>
    obtain ⟨new, said, hsaid, hown, hk⟩ := h.speaks hx hp
    refine ⟨new, said, hsaid, .inl ?_⟩
    rw [hk]
    exact .own _ hown
  | pass known =>
    refine ⟨[], [], .nothing rfl rfl, ?_⟩
    cases hk : x.known with
    | true => exact .inl (.own _ (.stay _))
    | false =>
      cases known with
      | false => exact .inl (.own _ (.stay _))
      | true =>
        obtain ⟨hst, -, ha⟩ := hx.fresh hk
        exact .inr ⟨rfl, rfl, rfl, rfl, mode_none hst (by rw [ha]; rfl),
          mode_none hst (by rw [ha]; rfl)⟩
  | frame hv hk hf hrun hidle h =>
    exact .of_step (AgentFrameCase.speaks hx hidle hk hf h ⟨rfl, rfl, rfl, rfl⟩)
  | frameError hv hk hf hrun hidle h =>
    obtain ⟨r, hr⟩ := hok _ (List.mem_singleton_self _) _ hv hk
    rw [h] at hr
    cases hr
  | event hrun hidle hw =>
    exact .of_step (.imp (EventCase.speaks hx hrun hidle hw (agentWorkerEvent_case _ _)
      ⟨rfl, rfl, rfl, rfl⟩) fun _ hown => .own _ hown)
  | finish hop hid hrun hidle hd h =>
    exact .of_step (FinishCase.speaks hidle (finishAgentOperation_case h) ⟨rfl, rfl, rfl, rfl⟩)
  | finishError =>
    exact ⟨[], [], .nothing rfl rfl, .inl (.own _ (.stay _))⟩
  | resolved hrun ha | opened hrun ha =>
    obtain ⟨hst, hs, hhand, howes⟩ := hx.announced ha (by simp [Next.inserts])
    refine ⟨[], [], ⟨?_, by rw [howes]; rfl⟩, .inl ?_⟩
    · rw [hhand]
      first | rfl | simp [hand, hs, Await.hand]
    · simp only [mode, hst, ha]
      exact .own _ (.stay _)

end Alighieri.Rdp
