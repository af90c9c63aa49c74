import Postgread.Convey.Transparency
import Postgread.Convey.Wire

/-!
# What the callbacks tell about the traffic

The callback gets decoded messages and never sees a byte. `go_reconstructed` says that nothing is
lost by that: at every moment of a run the bytes that were written can be computed from the reports,
but for the order and the repetitions of the fields of errors and notices.
-/

namespace Postgread

open Conveyor Event

namespace Message

/-- The frames that the message can stand in. -/
def FramedAs (msg : Message) (frame : List UInt8) : Prop :=
  ∃ body, msg.Spells body ∧ frame = frameBytes msg.type.typeByteOpt body

/-- A message without a list of fields has one frame. -/
theorem FramedAs.eq_frame {msg : Message} {frame : List UInt8} (h : msg.FramedAs frame)
    (hlist : ¬ msg.type.IsFieldList) : frame = msg.frame := by
  obtain ⟨body, hbody, rfl⟩ := h
  rw [hbody.eq_encode hlist]
  rfl

end Message

/-- A packet is a frame of its message. -/
theorem Packet.framedAs (p : Packet) : p.message.FramedAs p.bytes := ⟨p.body, p.spells, p.bytes_eq⟩

/-- The side of a packet is that of its message. -/
theorem Packet.message_side (p : Packet) : p.message.side = p.side := by
  rw [Message.side, p.message_type, Packet.side]

/-- Frames of messages without lists of fields are the canonical ones. -/
theorem flatten_eq_of_forall₂ {msgs : List Message} {frames : List (List UInt8)}
    (h : List.Forall₂ Message.FramedAs msgs frames)
    (hlist : ∀ msg ∈ msgs, ¬ msg.type.IsFieldList) :
    frames.flatten = msgs.flatMap Message.frame := by
  induction h with
  | nil => rfl
  | cons hframe _ ih =>
    obtain ⟨hmsg, hmsgs⟩ := List.forall_mem_cons.mp hlist
    rw [List.flatten_cons, List.flatMap_cons, hframe.eq_frame hmsg, ih hmsgs]

/-- The packets of a list are frames of their messages. -/
theorem forall₂_framedAs (ps : List Packet) :
    List.Forall₂ Message.FramedAs (ps.map Packet.message) (ps.map Packet.bytes) := by
  induction ps with
  | nil => exact .nil
  | cons p ps ih => exact .cons p.framedAs ih

/-- The messages in a trace, with the frames that the bytes in it consist of. The last message may
have been reported and not written. -/
structure Reconstructs (tr : List Event) (msgs pending : List Message) (answer : List UInt8)
    (frames : List (List UInt8)) : Prop where
  callbacks_eq : callbacks tr = msgs ++ pending
  length_pending : pending.length ≤ 1
  written_backend : written .backend tr =
    (msgs.filter fun msg => msg.side = .frontend).flatMap Message.frame
  framed : List.Forall₂ Message.FramedAs (msgs.filter fun msg => msg.side = .backend) frames
  written_frontend : written .frontend tr = answer ++ frames.flatten
  answered : answer = [] ∨
    answer = [tlsSupported] ∧ ∃ msgs', msgs = .frontend (.initial .tls) :: msgs'

namespace Session

variable (σ : Session)

/-- The messages of the packets that came from a side. -/
theorem map_message_sentBy (side : Side) : (σ.sentBy side).map Packet.message =
    (σ.conveyed.map Packet.message).filter fun msg => msg.side = side := by
  rw [List.filter_map]
  simp only [sentBy, Function.comp_def, Packet.message_side]

/-- What the frontend has sent are the canonical frames of its messages. -/
theorem frames_frontend : frames (σ.sentBy .frontend) =
    ((σ.conveyed.map Packet.message).filter fun msg => msg.side = .frontend).flatMap
      Message.frame := by
  rw [← σ.map_message_sentBy, ← flatten_eq_of_forall₂ (forall₂_framedAs (σ.sentBy .frontend))]
  · rw [frames, List.flatMap_def]
  · -- the frontend sends no lists of fields
    intro msg hmsg
    obtain ⟨p, hp, rfl⟩ := List.mem_map.mp hmsg
    have hside := σ.side_of_mem_sentBy hp
    rw [p.message_type]
    rcases htype : p.type with t | t
    · rw [Packet.side, htype] at hside
      cases hside
    · exact id

/-- A session and events that write at most the answer to a request for TLS. -/
theorem reconstructs {events : List Event} {pending : List Message} {answer : List UInt8}
    (hcallbacks : callbacks events = pending) (hpending : pending.length ≤ 1)
    (hbackend : written .backend events = [])
    (hfrontend : σ.answer ++ frames (σ.sentBy .backend) ++ written .frontend events =
      answer ++ frames (σ.sentBy .backend))
    (hanswer : answer = [] ∨ answer = [tlsSupported] ∧
      ∃ p ps, σ.conveyed = p :: ps ∧ p.IsTls) :
    Reconstructs (σ.events ++ events) (σ.conveyed.map Packet.message) pending answer
      ((σ.sentBy .backend).map Packet.bytes) where
  callbacks_eq := by rw [callbacks_append, σ.callbacks_events, hcallbacks]
  length_pending := hpending
  written_backend := by
    rw [written_append, σ.written_backend_events, hbackend, List.append_nil, σ.frames_frontend]
  framed := by
    rw [← σ.map_message_sentBy]
    exact forall₂_framedAs _
  written_frontend := by
    rw [written_append, σ.written_frontend_events, hfrontend, frames, List.flatMap_def]
  answered := by
    refine hanswer.imp_right (And.imp_right ?_)
    rintro ⟨p, ps, hps, hp⟩
    exact ⟨ps.map Packet.message, by rw [hps, List.map_cons, hp]⟩

/-- The frontend is only answered after it has asked for TLS. -/
theorem answer_eq : σ.answer = [] ∨
    σ.answer = [tlsSupported] ∧ ∃ p ps, σ.conveyed = p :: ps ∧ p.IsTls := by
  rcases hupgrade : σ.upgrade with _ | ⟨p, r⟩
  · exact .inl (by simp [answer, hupgrade])
  · refine .inr ⟨by simp [answer, hupgrade], p, σ.packets, by simp [conveyed, hupgrade], ?_⟩
    exact σ.isTls (p, r) (by simp [hupgrade])

end Session

/-- Where a run is stopped, its bytes are those that its reports tell. -/
theorem reconstructs_of_unfinished {σ : Session} {events : List Event} (h : σ.Unfinished events) :
    ∃ pending answer, Reconstructs (σ.events ++ events) (σ.conveyed.map Packet.message) pending
      answer ((σ.sentBy .backend).map Packet.bytes) ∧ (callbacks events = [] → pending = []) := by
  cases h with
  | tail h =>
    obtain ⟨hcallbacks, hwrites⟩ := callbacks_of_tail h
    have hnone : Event.writes events = [] →
        written .backend events = [] ∧ written .frontend events = [] := fun hnil => by
      simp [written, hnil]
    cases h with
    | @reading side got hgot =>
      obtain ⟨hbackend, hfrontend⟩ := hnone (writes_map_took _ _ _)
      exact ⟨[], _, σ.reconstructs hcallbacks (by simp) hbackend (by rw [hfrontend]; simp)
        σ.answer_eq, fun _ => rfl⟩
    | @replying p r events hp hσ hpre =>
      subst hσ
      have hside := Packet.side_of_isTls hp
      have hanswer : (Session.empty.add p).answer = [] := rfl
      have hsent : (Session.empty.add p).sentBy .backend = [] := by
        simp [Session.sentBy, Session.conveyed, Session.add, Session.empty, hside]
      rcases hwrites with hnil | hwrites
      · obtain ⟨hbackend, hfrontend⟩ := hnone hnil
        exact ⟨[], [], Session.reconstructs _ hcallbacks (by simp) hbackend
          (by rw [hfrontend, hanswer]; simp) (.inl rfl), fun _ => rfl⟩
      · -- the frontend has got the answer of the proxy
        refine ⟨[], [tlsSupported], Session.reconstructs _ hcallbacks (by simp) ?_ ?_
          (.inr ⟨rfl, p, [], rfl, hp⟩), fun _ => rfl⟩
        · simp [written, hwrites]
        · simp [written, hwrites, hanswer, hsent]
  -- the last message has been reported, and its frame is not written yet
  | reported p hp =>
    have hcallbacks : callbacks (p.bytes.map (took p.side (σ.layers p.side)) ++
        [.callback p.message]) = [p.message] := by
      rw [callbacks_append, callbacks_map_took]
      rfl
    have hwritten (side : Side) : written side (p.bytes.map (took p.side (σ.layers p.side)) ++
        [.callback p.message]) = [] := by
      rw [written_append, written_map_took]
      rfl
    refine ⟨[p.message], _, σ.reconstructs hcallbacks le_rfl (hwritten _) ?_ σ.answer_eq, ?_⟩
    · rw [hwritten, List.append_nil]
    · rw [hcallbacks]
      exact fun h => absurd h (List.cons_ne_nil _ _)

/-- Wherever a run is stopped, the reports of the frontend determine the bytes that the backend has
got: they are the canonical frames of the messages, one after the other. The frontend has got one
frame of each message of the backend, the canonical one unless it is an error or a notice, after the
answer to a request for TLS. Only the last message may have been reported and not written, and none
in a run that is over. -/
theorem go_reconstructed (frontend backend : Stream)
    (frontendTlsServer backendTlsClient : TlsProvider) (overflowChecks : Bool) (stop : ℕ) :
    let trace := (go (new frontend backend frontendTlsServer backendTlsClient overflowChecks)).2.trace
    ∃ msgs pending answer frames, Reconstructs (trace.take stop) msgs pending answer frames ∧
      (trace.length ≤ stop → pending = []) ∧
      ((∀ msg ∈ msgs, ¬ msg.type.IsFieldList) → frames.flatten =
        (msgs.filter fun msg => msg.side = .backend).flatMap Message.frame) := by
  intro trace
  have hfresh := fresh_new frontend backend frontendTlsServer backendTlsClient overflowChecks
  have hcanonical {msgs pending : List Message} {answer : List UInt8}
      {frames : List (List UInt8)} {tr : List Event}
      (h : Reconstructs tr msgs pending answer frames)
      (hlist : ∀ msg ∈ msgs, ¬ msg.type.IsFieldList) : frames.flatten =
        (msgs.filter fun msg => msg.side = .backend).flatMap Message.frame :=
    flatten_eq_of_forall₂ h.framed fun msg hmsg => hlist msg (List.mem_filter.mp hmsg).1
  by_cases hdone : trace.length ≤ stop
  · obtain ⟨σ, events, htrace, -, htail, -⟩ :=
      go_session hfresh (show _ = ((go _).1, (go _).2) from rfl)
    obtain ⟨pending, answer, hre, hnil⟩ := reconstructs_of_unfinished (.tail htail)
    rw [List.take_of_length_le hdone]
    exact ⟨_, pending, answer, _, by rw [← htrace] at hre; exact hre,
      fun _ => hnil (callbacks_of_tail htail).1, hcanonical hre⟩
  · obtain ⟨σ, events, hevents, htr⟩ := stopped_of_isPrefix hfresh (List.take_prefix stop trace)
    obtain ⟨pending, answer, hre, -⟩ := reconstructs_of_unfinished hevents
    exact ⟨_, pending, answer, _, by rw [← htr] at hre; exact hre, fun h => absurd h hdone,
      hcanonical hre⟩

end Postgread
