import Alighieri.Rdp.Queues

/-!
# Keepalives (mux.rs:1380-1400, 1768-1783, 1925-1940, 2208-2222)

An outstanding PING is somewhere on its way, as a PING or as a PONG. So the next PONG is always
the answer to it.
-/

namespace Alighieri.Rdp

def Frame.pingNonce : Frame → Option ℕ
  | .ping nonce => some nonce
  | _ => none

def Frame.pongNonce : Frame → Option ℕ
  | .pong nonce => some nonce
  | _ => none

abbrev pings (fs : List Frame) : List ℕ := fs.filterMap Frame.pingNonce

abbrev pongs (fs : List Frame) : List ℕ := fs.filterMap Frame.pongNonce

theorem Frame.pingNonce_lane {f : Frame} (h : f.lane ≠ none) : f.pingNonce = none := by
  cases f with
  | ping => exact absurd rfl h
  | _ => rfl

theorem Frame.pongNonce_lane {f : Frame} (h : f.lane ≠ none) : f.pongNonce = none := by
  cases f with
  | pong => exact absurd rfl h
  | _ => rfl

def Await.pongs : Await → List ℕ
  | .control (.pong nonce) _ => [nonce]
  | _ => []

/-- `p` sends the PINGs and `q` answers them; `there` and `back` are the two directions of
the transport. -/
structure Keepalive (p q : Queues) (there back : List Frame) : Prop where
  token : pongs (p.frames ++ p.reader.toList ++ back ++ q.writer.toList ++ q.control) ++
    q.await.pongs ++ pings (q.frames ++ q.reader.toList ++ there ++ p.writer.toList ++ p.control) =
      p.ping.toList
  asking : ∀ nonce, p.await = .control (.ping nonce) (.ping nonce) → p.ping = none

theorem Await.About.not_control {i : ℕ} {a : Await} (h : a.About i) (f : Frame) (next : Next) :
    a ≠ .control f next := by
  rintro rfl
  cases h.1

theorem Await.pongs_nil {a : Await} (h : ∀ f next, a ≠ .control f next) : a.pongs = [] := by
  cases a with
  | control f next => exact absurd rfl (h f next)
  | _ => rfl

namespace Keepalive

variable {P : ℕ → Await → Prop} {p p' q q' : Queues} {there back : List Frame}

theorem answers (h : Keepalive p q there back) {nonce : ℕ} {rest : List Frame}
    (hf : p.frames = .pong nonce :: rest) : p.ping = some nonce := by
  have htoken := h.token
  rw [hf] at htoken
  cases hp : p.ping with
  | none =>
    rw [hp] at htoken
    cases htoken
  | some m =>
    rw [hp] at htoken
    have hhead : nonce = m := (List.cons.inj htoken).1
    rw [hhead]

theorem asker (h : Keepalive p q there back) (ht : p.Tidy) (hP : ∀ i a, P i a → a.About i)
    (hm : QueueMove P p p') : Keepalive p' q there back := by
  have htoken := h.token
  cases hm with
  | quiet => exact h
  | worked | stopped => exact ⟨h.token, h.asking⟩
  | pickControl hw hc => exact ⟨by simpa [hw, hc] using htoken, h.asking⟩
  | pickOrdered hw ho =>
    rename_i f os
    have hlane := ht.ordered f (by rw [ho]; exact List.mem_cons_self)
    exact ⟨by simpa [hw, Frame.pingNonce_lane hlane] using htoken, h.asking⟩
  | delivered hr => exact ⟨by simpa [hr] using htoken, h.asking⟩
  | called hrun hidle ha =>
    exact ⟨h.token, fun nonce hn => absurd hn ((hP _ _ ha).not_control _ _)⟩
  | handled hrun hidle hf hl ha =>
    rename_i f rest a
    have hlane : f.lane ≠ none := by rw [hl]; simp
    refine ⟨?_, fun nonce hn => absurd hn ((hP _ _ ha).not_control _ _)⟩
    simpa [hf, Frame.pongNonce_lane hlane] using htoken
  | rejected error hrun hf hl =>
    rename_i f rest
    have hlane : f.lane ≠ none := by rw [hl]; simp
    exact ⟨by simpa [hf, Frame.pongNonce_lane hlane] using htoken, h.asking⟩
  | pinged hidle hf =>
    rw [hf] at htoken
    exact ⟨htoken, fun nonce hn => by cases hn⟩
  | ponged hf hp =>
    rw [hf, hp] at htoken
    exact ⟨(List.cons.inj htoken).2, fun _ _ => rfl⟩
  | mismatched error hf hp => exact absurd (h.answers hf) hp
  | ticked n hidle hp => exact ⟨h.token, fun _ _ => hp⟩
  | queued | closed => exact ⟨h.token, fun nonce hn => by cases hn⟩
  | ponging ha => exact ⟨by simpa [Frame.pingNonce] using htoken, fun nonce hn => by cases hn⟩
  | pinging ha =>
    -- nothing is under way while the driver waits to queue a PING
    rename_i n
    rw [h.asking n ha] at htoken
    refine ⟨?_, fun nonce hn => by cases hn⟩
    simp only [Option.toList_none, List.append_eq_nil_iff, List.filterMap_append] at htoken
    simp [htoken, Frame.pingNonce]
  | gated hh hc ha =>
    refine ⟨h.token, fun nonce hn => ?_⟩
    rcases ha with ha | ⟨i, reason, ha⟩ <;> rw [ha] at hn <;> cases hn

theorem answerer (h : Keepalive p q there back) (ht : q.Tidy) (hP : ∀ i a, P i a → a.About i)
    (hm : QueueMove P q q') : Keepalive p q' there back := by
  have htoken := h.token
  refine ⟨?_, h.asking⟩
  cases hm with
  | quiet | worked | stopped => exact htoken
  | pickControl hw hc => simpa [hw, hc] using htoken
  | pickOrdered hw ho =>
    rename_i f os
    have hlane := ht.ordered f (by rw [ho]; exact List.mem_cons_self)
    simpa [hw, Frame.pongNonce_lane hlane] using htoken
  | delivered hr => simpa [hr] using htoken
  | called hrun hidle ha =>
    rename_i a
    have hnone : a.pongs = [] := Await.pongs_nil fun f next => (hP _ _ ha).not_control f next
    have hidle' : q.await.pongs = [] := by rw [hidle]; rfl
    simpa [hnone, hidle'] using htoken
  | handled hrun hidle hf hl ha =>
    rename_i f rest a
    have hnone : a.pongs = [] := Await.pongs_nil fun f next => (hP _ _ ha).not_control f next
    have hlane : f.lane ≠ none := by rw [hl]; simp
    have hidle' : q.await.pongs = [] := by rw [hidle]; rfl
    simpa [hf, hnone, hidle', Frame.pingNonce_lane hlane] using htoken
  | rejected error hrun hf hl =>
    rename_i f rest
    have hlane : f.lane ≠ none := by rw [hl]; simp
    simpa [hf, Frame.pingNonce_lane hlane] using htoken
  | pinged hidle hf => simpa [hf, hidle, Await.pongs, Frame.pingNonce] using htoken
  | ponged hf | mismatched error hf =>
    rw [hf] at htoken
    exact htoken
  | ticked n hidle hp =>
    rw [hidle] at htoken
    exact htoken
  | queued ha | closed ha =>
    rw [ha] at htoken
    exact htoken
  | ponging ha | pinging ha => simpa [ha, Await.pongs, Frame.pongNonce] using htoken
  | gated hh hc ha =>
    have hnone : q.await.pongs = [] := Await.pongs_nil hc
    rw [hnone] at htoken
    rcases ha with ha | ⟨i, reason, ha⟩ <;> rw [ha] <;> exact htoken

end Keepalive

end Alighieri.Rdp
