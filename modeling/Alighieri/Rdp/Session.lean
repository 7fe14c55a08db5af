import Alighieri.Rdp.AgentSide

/-!
# A session between the two ends (mux.rs:1151-1350, 1837-2005)

A client end and an agent end joined by two bounded FIFOs of whole frames. `sendUp` and `sendDown`
are the ends' `frame_writer` putting a frame on the wire, `recvUp` and `recvDown` their
`frame_reader` taking one off it.
-/

namespace Alighieri.Rdp
open Net Lts

structure Setup where
  limits : NegotiatedLimits
  policy : AgentPolicy
  client : Caps
  agent : Caps

structure Session where
  client : Client
  agent : Agent
  up : List Frame
  down : List Frame

inductive SessionAct where
  | client (a : ClientAct)
  | agent (a : AgentAct)
  | sendUp
  | recvUp
  | sendDown
  | recvDown

namespace Session

def start : Session := ⟨.start, .start, [], []⟩

def sendUp (u : Setup) (s : Session) : Option Session :=
  if s.up.length < u.client.wire then
    s.client.ep.depart.map fun (f, ep) =>
      { s with client := { s.client with ep := ep }, up := s.up ++ [f] }
  else none

def sendDown (u : Setup) (s : Session) : Option Session :=
  if s.down.length < u.agent.wire then
    s.agent.ep.depart.map fun (f, ep) =>
      { s with agent := { s.agent with ep := ep }, down := s.down ++ [f] }
  else none

def recvUp (s : Session) : Option Session :=
  match s.up with
  | [] => none
  | f :: rest => (s.agent.ep.arrive f).map fun ep =>
      { s with agent := { s.agent with ep := ep }, up := rest }

def recvDown (s : Session) : Option Session :=
  match s.down with
  | [] => none
  | f :: rest => (s.client.ep.arrive f).map fun ep =>
      { s with client := { s.client with ep := ep }, down := rest }

def step (u : Setup) (s : Session) : SessionAct → Option Session
  | .client a => (s.client.step u.limits u.client a).map fun c => { s with client := c }
  | .agent a => (s.agent.step u.limits u.policy u.agent a).map fun b => { s with agent := b }
  | .sendUp => s.sendUp u
  | .recvUp => s.recvUp
  | .sendDown => s.sendDown u
  | .recvDown => s.recvDown

/-- The steps of a session. -/
inductive Move (u : Setup) (s : Session) : SessionAct → Session → Prop where
  | client {a : ClientAct} {c : Client} (h : s.client.step u.limits u.client a = some c) :
      Move u s (.client a) { s with client := c }
  | agent {a : AgentAct} {b : Agent} (h : s.agent.step u.limits u.policy u.agent a = some b) :
      Move u s (.agent a) { s with agent := b }
  | sendUp {f : Frame} (hend : s.client.ep.ended = none) (hw : s.client.ep.writer = some f)
      (hroom : s.up.length < u.client.wire) :
      Move u s .sendUp { s with
        client := { s.client with ep := { s.client.ep with writer := none } }
        up := s.up ++ [f] }
  | recvUp {f : Frame} {rest : List Frame} (hend : s.agent.ep.ended = none) (hup : s.up = f :: rest)
      (hr : s.agent.ep.reader = none) :
      Move u s .recvUp { s with
        agent := { s.agent with ep := { s.agent.ep with reader := some f } }
        up := rest }
  | sendDown {f : Frame} (hend : s.agent.ep.ended = none) (hw : s.agent.ep.writer = some f)
      (hroom : s.down.length < u.agent.wire) :
      Move u s .sendDown { s with
        agent := { s.agent with ep := { s.agent.ep with writer := none } }
        down := s.down ++ [f] }
  | recvDown {f : Frame} {rest : List Frame} (hend : s.client.ep.ended = none)
      (hdown : s.down = f :: rest) (hr : s.client.ep.reader = none) :
      Move u s .recvDown { s with
        client := { s.client with ep := { s.client.ep with reader := some f } }
        down := rest }

theorem step_move {u : Setup} {s t : Session} {act : SessionAct} (h : s.step u act = some t) :
    Move u s act t := by
  cases act with
  | client a =>
    obtain ⟨c, hc, rfl⟩ := Option.map_eq_some_iff.mp h
    exact .client hc
  | agent a =>
    obtain ⟨b, hb, rfl⟩ := Option.map_eq_some_iff.mp h
    exact .agent hb
  | sendUp =>
    obtain ⟨hroom, h⟩ := Option.ite_none_right_eq_some.mp h
    obtain ⟨⟨f, ep⟩, hd, rfl⟩ := Option.map_eq_some_iff.mp h
    obtain ⟨hend, hw, rfl⟩ := Endpoint.depart_cases hd
    exact .sendUp hend hw hroom
  | sendDown =>
    obtain ⟨hroom, h⟩ := Option.ite_none_right_eq_some.mp h
    obtain ⟨⟨f, ep⟩, hd, rfl⟩ := Option.map_eq_some_iff.mp h
    obtain ⟨hend, hw, rfl⟩ := Endpoint.depart_cases hd
    exact .sendDown hend hw hroom
  | recvUp =>
    simp only [step, recvUp] at h
    split at h
    · cases h
    rename_i hup
    obtain ⟨hend, hr, rfl⟩ := Endpoint.arrive_put h
    exact .recvUp hend hup hr
  | recvDown =>
    simp only [step, recvDown] at h
    split at h
    · cases h
    rename_i hdown
    obtain ⟨hend, hr, rfl⟩ := Endpoint.arrive_put h
    exact .recvDown hend hdown hr

end Session

end Alighieri.Rdp
