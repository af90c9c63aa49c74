import Mathlib.Data.List.Basic
import Postgread.Convey.Accounting

/-!
# Transparency

What a run writes is what it has consumed, frame by frame, and what it reports are the messages in
these frames. `go_transparent` says this about the bytes of every run that is stopped anywhere,
`go_observed` about the callbacks, the writes and the messages of every whole run.
-/

namespace Postgread

open Body Conveyor

namespace Event

/-- The bytes that were consumed from a side, at either layer. -/
def taken (side : Side) (tr : List Event) : List UInt8 :=
  tr.filterMap fun
    | took side' _ byte => if side' = side then some byte else none
    | _ => none

/-- The single writes, with the sides that they went to. -/
def writes (tr : List Event) : List (Side × List UInt8) :=
  tr.filterMap fun
    | wrote side _ bytes => some (side, bytes)
    | _ => none

/-- The bytes that were written to a side. -/
def written (side : Side) (tr : List Event) : List UInt8 :=
  (writes tr).flatMap fun x => if x.1 = side then x.2 else []

/-- The messages that were reported. -/
def callbacks (tr : List Event) : List Message :=
  tr.filterMap fun
    | callback msg => some msg
    | _ => none

section

variable (side : Side) (layer : Layer) (tr tr' : List Event) (bytes : List UInt8)

/-- Nothing is consumed in an empty trace. -/
@[simp] theorem taken_nil : taken side [] = [] := rfl

/-- What was consumed in a trace of two parts. -/
@[simp] theorem taken_append : taken side (tr ++ tr') = taken side tr ++ taken side tr' :=
  List.filterMap_append

/-- Nothing is written in an empty trace. -/
@[simp] theorem writes_nil : writes [] = [] := rfl

/-- The writes of a trace of two parts. -/
@[simp] theorem writes_append : writes (tr ++ tr') = writes tr ++ writes tr' :=
  List.filterMap_append

/-- No byte is written in an empty trace. -/
@[simp] theorem written_nil : written side [] = [] := rfl

/-- The bytes written in a trace of two parts. -/
@[simp] theorem written_append :
    written side (tr ++ tr') = written side tr ++ written side tr' := by
  simp [written]

/-- Nothing is reported in an empty trace. -/
@[simp] theorem callbacks_nil : callbacks [] = [] := rfl

/-- What was reported in a trace of two parts. -/
@[simp] theorem callbacks_append : callbacks (tr ++ tr') = callbacks tr ++ callbacks tr' :=
  List.filterMap_append

/-- Consumed bytes belong to their side. -/
theorem taken_map_took (side' : Side) :
    taken side (bytes.map (took side' layer)) = if side' = side then bytes else [] := by
  by_cases h : side' = side <;> simp [taken, List.filterMap_map, h]

/-- Consuming bytes writes nothing. -/
@[simp] theorem writes_map_took : writes (bytes.map (took side layer)) = [] := by
  simp [writes, List.filterMap_map]

/-- Consuming bytes writes no byte. -/
@[simp] theorem written_map_took (side' : Side) :
    written side (bytes.map (took side' layer)) = [] := by
  simp [written]

/-- Consuming bytes reports nothing. -/
@[simp] theorem callbacks_map_took : callbacks (bytes.map (took side layer)) = [] := by
  simp [callbacks, List.filterMap_map]

end

end Event

open Event

/-! ## Packets and sessions in a trace -/

/-- The frames of packets, one after the other. -/
def frames (ps : List Packet) : List UInt8 := ps.flatMap Packet.bytes

/-- No packets have no frames. -/
@[simp] theorem frames_nil : frames [] = [] := rfl

/-- The frames of a first packet and the others. -/
@[simp] theorem frames_cons (p : Packet) (ps : List Packet) :
    frames (p :: ps) = p.bytes ++ frames ps := rfl

/-- The frames of two lists of packets. -/
@[simp] theorem frames_append (ps qs : List Packet) :
    frames (ps ++ qs) = frames ps ++ frames qs := by
  simp [frames]

namespace Packet

variable (p : Packet) (layers : Side → Layer) (side : Side)

/-- The whole frame of a packet is consumed from its side. -/
theorem taken_events : taken side (p.events layers) = if p.side = side then p.bytes else [] := by
  rw [events, taken_append, taken_map_took]
  simp [report, taken]

/-- The frame of a packet is written to the other side at once. -/
@[simp] theorem writes_events : writes (p.events layers) = [(p.side.other, p.bytes)] := by
  rw [events, writes_append, writes_map_took]
  rfl

/-- The message of a packet is reported. -/
@[simp] theorem callbacks_events : callbacks (p.events layers) = [p.message] := by
  rw [events, callbacks_append, callbacks_map_took]
  rfl

end Packet

namespace TlsReply

variable (r : TlsReply)

/-- The reply is one byte of the backend. -/
@[simp] theorem taken_events (side : Side) :
    taken side r.events = if side = .backend then [r.byte] else [] := by
  rcases r with ⟨_ | _, b, f⟩ <;> cases side <;> rfl

/-- Whatever the reply, the frontend is answered `S`. -/
@[simp] theorem writes_events : writes r.events = [(.frontend, [tlsSupported])] := by
  rcases r with ⟨_ | _, b, f⟩ <;> rfl

/-- The reply is not reported. -/
@[simp] theorem callbacks_events : callbacks r.events = [] := by
  rcases r with ⟨_ | _, b, f⟩ <;> rfl

end TlsReply

namespace Session

variable (σ : Session)

/-- The packets that came from a side. -/
def sentBy (side : Side) : List Packet := σ.conveyed.filter fun p => p.side = side

/-- The reply of the backend to the request for TLS. -/
def reply : List UInt8 := (σ.upgrade.map fun x => x.2.byte).toList

/-- What the frontend gets instead of the reply. -/
def answer : List UInt8 := (σ.upgrade.map fun _ => tlsSupported).toList

/-- The writes of the session, the answer to the request for TLS after the request. -/
def writes : List (Side × List UInt8) :=
  (σ.upgrade.map fun x => [(x.1.side.other, x.1.bytes), (.frontend, [tlsSupported])]).getD [] ++
    σ.packets.map fun p => (p.side.other, p.bytes)

/-- What a function of traces makes of a session, if it respects concatenation. -/
theorem apply_events {α : Type} (f : List Event → List α) (hnil : f [] = [])
    (happend : ∀ tr tr', f (tr ++ tr') = f tr ++ f tr') :
    f σ.events = (σ.upgrade.map fun x => f (x.1.events plainLayers) ++ f x.2.events).getD [] ++
      σ.packets.flatMap fun p => f (p.events σ.layers) := by
  have hflat (es : List Entry) : f (es.flatMap Entry.events) = es.flatMap fun e => f e.events := by
    induction es with
    | nil => exact hnil
    | cons e es ih => rw [List.flatMap_cons, happend, ih, List.flatMap_cons]
  rw [events, hflat, entries, List.flatMap_append, List.flatMap_map]
  rcases σ.upgrade with _ | ⟨p, r⟩
  · rfl
  · simp [Entry.events]

/-- What a function of traces that is about the frames of one side makes of a session. -/
theorem frames_of_events (side : Side) (f : List Event → List UInt8) (g : TlsReply → UInt8)
    (hnil : f [] = []) (happend : ∀ tr tr', f (tr ++ tr') = f tr ++ f tr')
    (hpacket : ∀ (p : Packet) layers,
      f (p.events layers) = if p.side = side then p.bytes else [])
    (hreply : ∀ r : TlsReply, f r.events = if side = .backend then [g r] else []) :
    f σ.events = (if side = .backend then (σ.upgrade.map fun x => g x.2).toList else []) ++
      frames (σ.sentBy side) := by
  have hpackets (ps : List Packet) :
      (ps.flatMap fun p => f (p.events σ.layers)) = frames (ps.filter fun p => p.side = side) := by
    -- packet by packet, those of the other side bring nothing
    induction ps with
    | nil => rfl
    | cons p ps ih =>
      rw [List.flatMap_cons, ih, hpacket, List.filter_cons]
      by_cases h : p.side = side <;> simp [h]
  rw [σ.apply_events f hnil happend, hpackets, sentBy, conveyed]
  rcases hupgrade : σ.upgrade with _ | ⟨p, r⟩
  · simp
  · -- the request for TLS comes first, and belongs to the frontend
    have hside := Packet.side_of_isTls (σ.isTls (p, r) (by simp [hupgrade]))
    cases side <;> simp [hpacket, hreply, hside]

/-- What was consumed of a side are its frames, after the reply in the case of the backend. -/
theorem taken_events (side : Side) :
    taken side σ.events = (if side = .backend then σ.reply else []) ++ frames (σ.sentBy side) :=
  σ.frames_of_events side (taken side) TlsReply.byte rfl (taken_append side)
    (fun p layers => p.taken_events layers side) (fun r => r.taken_events side)

/-- What was written are the frames of the other side, after the answer in the case of the frontend.
-/
theorem written_events (side : Side) :
    written side.other σ.events =
      (if side = .backend then σ.answer else []) ++ frames (σ.sentBy side) := by
  refine σ.frames_of_events side (written side.other) (fun _ => tlsSupported) rfl
    (written_append side.other) (fun p layers => ?_) (fun r => ?_)
  · have hiff : p.side.other = side.other ↔ p.side = side := by
      cases p.side <;> cases side <;> decide
    simp [written, hiff]
  · cases side <;> simp [written, Side.other]

/-- What the backend gets are the frames of the frontend. -/
theorem written_backend_events : written .backend σ.events = frames (σ.sentBy .frontend) :=
  σ.written_events .frontend

/-- What the frontend gets are the answer and the frames of the backend. -/
theorem written_frontend_events :
    written .frontend σ.events = σ.answer ++ frames (σ.sentBy .backend) :=
  σ.written_events .backend

/-- The writes in the trace of a session. -/
@[simp] theorem writes_events : Event.writes σ.events = σ.writes := by
  rw [σ.apply_events Event.writes rfl writes_append, writes, List.map_eq_flatMap]
  simp only [Packet.writes_events, TlsReply.writes_events, List.cons_append, List.nil_append]

/-- The callbacks in the trace of a session. -/
@[simp] theorem callbacks_events : callbacks σ.events = σ.conveyed.map Packet.message := by
  rw [σ.apply_events callbacks rfl callbacks_append, conveyed, List.map_append,
    @List.map_eq_flatMap _ _ _ σ.packets]
  rcases σ.upgrade with _ | ⟨p, r⟩ <;> simp

/-- Packets that a side has sent come from it. -/
theorem side_of_mem_sentBy {side : Side} {p : Packet} (h : p ∈ σ.sentBy side) : p.side = side := by
  simpa using (List.mem_filter.mp h).2

end Session

/-! ## Layers -/

namespace Event

/-- Everything that was consumed was consumed at these layers. -/
def AtLayers (layers : Side → Layer) (tr : List Event) : Prop :=
  ∀ side layer byte, took side layer byte ∈ tr → layer = layers side

variable {layers : Side → Layer} {tr tr' : List Event}

/-- Traces at the same layers, one after the other. -/
theorem AtLayers.append (h : AtLayers layers tr) (h' : AtLayers layers tr') :
    AtLayers layers (tr ++ tr') :=
  fun side layer byte hmem => (List.mem_append.mp hmem).elim (h side layer byte)
    (h' side layer byte)

/-- The beginning of a trace at these layers. -/
theorem AtLayers.of_isPrefix (h : AtLayers layers tr) (hpre : tr' <+: tr) : AtLayers layers tr' :=
  fun side layer byte hmem => h side layer byte (hpre.subset hmem)

/-- Bytes that are consumed at the layer of their side. -/
theorem atLayers_map_took (side : Side) (bytes : List UInt8) :
    AtLayers layers (bytes.map (took side (layers side))) := by
  rintro side' layer byte hmem
  obtain ⟨byte', -, heq⟩ := List.mem_map.mp hmem
  cases heq
  rfl

/-- At the layers of a trace everything is consumed, at the others nothing. -/
theorem AtLayers.takenAt_eq (h : AtLayers layers tr) (side : Side) (layer : Layer) :
    takenAt side layer tr = if layers side = layer then taken side tr else [] := by
  by_cases hlayer : layers side = layer
  · rw [if_pos hlayer]
    refine List.filterMap_congr fun e he => ?_
    cases e with
    | took side' layer' byte =>
      have hlayer' := h side' layer' byte he
      by_cases hside : side' = side
      · subst hside
        simp [hlayer', hlayer]
      · simp [hside]
    | _ => rfl
  · rw [if_neg hlayer]
    refine List.filterMap_eq_nil_iff.mpr fun e he => ?_
    cases e with
    | took side' layer' byte =>
      have hlayer' := h side' layer' byte he
      have hne : ¬ (side' = side ∧ layer' = layer) := by
        rintro ⟨rfl, rfl⟩
        exact hlayer hlayer'.symm
      simp [hne]
    | _ => rfl

/-- If a side was plain at first and then at some layer, its plain bytes came first. -/
theorem taken_eq_of_atLayers (h : AtLayers plainLayers tr) (h' : AtLayers layers tr')
    (side : Side) :
    taken side (tr ++ tr') = takenAt side .plain (tr ++ tr') ++ takenAt side .tls (tr ++ tr') := by
  simp only [taken_append, takenAt_append, h.takenAt_eq, h'.takenAt_eq, plainLayers]
  cases layers side <;> simp

end Event

/-- A packet is consumed at the given layers. -/
theorem Packet.atLayers_events (p : Packet) (layers : Side → Layer) :
    AtLayers layers (p.events layers) :=
  (atLayers_map_took _ _).append (by simp [AtLayers, Packet.report])

/-- The reply is consumed in the clear. -/
theorem TlsReply.atLayers_events (r : TlsReply) : AtLayers plainLayers r.events := by
  rcases r with ⟨_ | _, b, f⟩ <;> simp +contextual [AtLayers, TlsReply.events, plainLayers]

/-- The layers of what follows a session. -/
theorem Session.atLayers_of_tail {σ : Session} {events : List Event} (h : σ.Tail events) :
    AtLayers σ.layers events := by
  cases h with
  | reading => exact atLayers_map_took _ _
  | replying hp hσ hpre =>
    subst hσ
    exact (TlsReply.atLayers_events _).of_isPrefix hpre

/-- The layers of a run that is stopped within a message. -/
theorem Session.atLayers_of_unfinished {σ : Session} {events : List Event}
    (h : σ.Unfinished events) : AtLayers σ.layers events := by
  cases h with
  | tail h => exact atLayers_of_tail h
  | reported p => exact (atLayers_map_took _ _).append (by simp [AtLayers])

/-- In every run that is stopped anywhere, the plain bytes of a side come first. -/
theorem taken_of_stopped {tr : List Event} (h : Stopped tr) (side : Side) :
    taken side tr = takenAt side .plain tr ++ takenAt side .tls tr := by
  obtain ⟨σ, events, hevents, rfl⟩ := h
  rw [show σ.events = _ from σ.apply_events id rfl (fun _ _ => rfl), List.append_assoc]
  refine taken_eq_of_atLayers ?_ (AtLayers.append ?_ (Session.atLayers_of_unfinished hevents)) side
  -- the request for TLS and the reply come first, and both are plain
  · rcases σ.upgrade with _ | ⟨p, r⟩
    · exact fun _ _ _ hmem => absurd hmem List.not_mem_nil
    · exact (p.atLayers_events _).append r.atLayers_events
  · intro side' layer byte hmem
    obtain ⟨p, -, hp⟩ := List.mem_flatMap.mp hmem
    exact p.atLayers_events _ side' layer byte hp

/-- The beginning of a plain stream and then, if the rest of it was given to the TLS library, the
beginning of the stream that the library returned. -/
def Consumed (source : Stream) (tls : TlsProvider) (bytes : List UInt8) : Prop :=
  ∃ clear secret, bytes = clear ++ secret ∧ clear <+: Script.tokens source ∧
    (secret = [] ∨ ∃ rest session, Script.tokens source = clear ++ Script.tokens rest ∧
      tls rest = .ok session ∧ secret <+: Script.tokens session)

/-- A beginning of what was consumed was consumed in the same way. -/
theorem Consumed.of_isPrefix {source : Stream} {tls : TlsProvider} {bytes bytes' : List UInt8}
    (h : Consumed source tls bytes) (hpre : bytes' <+: bytes) : Consumed source tls bytes' := by
  obtain ⟨clear, secret, rfl, hclear, hsecret⟩ := h
  -- it ends within the plain bytes, or goes beyond them
  rcases List.prefix_or_prefix_of_prefix hpre (List.prefix_append clear secret) with
    hshort | ⟨secret', rfl⟩
  · exact ⟨bytes', [], by simp, hshort.trans hclear, .inl rfl⟩
  · have hpre' : secret' <+: secret := (List.prefix_append_right_inj clear).mp hpre
    refine ⟨clear, secret', rfl, hclear, ?_⟩
    rcases hsecret with rfl | ⟨rest, session, hrest, hsession, hsecret⟩
    · exact .inl (List.prefix_nil.mp hpre')
    · exact .inr ⟨rest, session, hrest, hsession, hpre'.trans hsecret⟩

/-! ## Every byte that is written -/

/-- The bytes of a message in progress. An initial packet has no type byte, and only requests for
TLS come before it. -/
def InProgress (sent : List Packet) (side : Side) (got : List UInt8) : Prop :=
  WithinFrame got ∨ side = .frontend ∧ (∀ p ∈ sent, p.IsTls) ∧ WithinLength got

/-- The bytes in a trace, as the frames that each side has sent, the reply to a request for TLS with
the answer that the frontend gets instead, and the rests that were consumed but not written. -/
structure Forwards (tr : List Event) (sent : Side → List Packet) (reply answer : List UInt8)
    (rest : Side → List UInt8) : Prop where
  side_eq : ∀ side, ∀ p ∈ sent side, p.side = side
  taken_frontend : taken .frontend tr = frames (sent .frontend) ++ rest .frontend
  written_backend : written .backend tr = frames (sent .frontend)
  taken_backend : taken .backend tr = reply ++ frames (sent .backend) ++ rest .backend
  written_frontend : written .frontend tr = answer ++ frames (sent .backend)
  exchange : reply = [] ∧ answer = [] ∨
    (reply = [tlsSupported] ∨ reply = [tlsNotSupported]) ∧ answer = [tlsSupported] ∧
      ∃ p ps, sent .frontend = p :: ps ∧ p.IsTls
  one_frame : ∃ side, rest side.other = [] ∧ InProgress (sent .frontend) side (rest side)

namespace Session

variable {σ : Session}

/-- The reply and the answer come together, after the request that is the first packet. -/
theorem exchange (σ : Session) : σ.reply = [] ∧ σ.answer = [] ∨
    (σ.reply = [tlsSupported] ∨ σ.reply = [tlsNotSupported]) ∧ σ.answer = [tlsSupported] ∧
      ∃ p ps, σ.sentBy .frontend = p :: ps ∧ p.IsTls := by
  rcases hupgrade : σ.upgrade with _ | ⟨p, r⟩
  · exact .inl ⟨by simp [reply, hupgrade], by simp [answer, hupgrade]⟩
  · have htls : p.IsTls := σ.isTls (p, r) (by simp [hupgrade])
    have hside := Packet.side_of_isTls htls
    refine .inr ⟨?_, by simp [answer, hupgrade], p, _,
      by simp [sentBy, conveyed, hupgrade, hside]; rfl, htls⟩
    -- the backend has said `N` or `S`, and the answer is the same
    rcases r with ⟨_ | _, b, f⟩
    · exact .inr (by simp [reply, hupgrade, TlsReply.byte])
    · exact .inl (by simp [reply, hupgrade, TlsReply.byte])

/-- The bytes of a message that is awaited are those of a message in progress. -/
theorem Awaits.inProgress {side : Side} {got : List UInt8} (h : σ.Awaits side got) :
    InProgress (σ.sentBy .frontend) side got := by
  unfold Awaits at h
  split at h
  · -- an initial packet, which nothing but a request for TLS comes before
    rename_i hnil
    refine .inr ⟨h.1, fun p hp => ?_, h.2⟩
    have hmem : p ∈ (σ.upgrade.map Prod.fst).toList := by
      have := (List.mem_filter.mp hp).1
      rwa [conveyed, hnil, List.append_nil] at this
    obtain ⟨x, hx, rfl⟩ : ∃ x, σ.upgrade = some x ∧ x.1 = p := by simpa using hmem
    exact σ.isTls x (by simp [hx])
  · exact .inl h

/-- A session and the bytes of a message in progress. -/
theorem forwards_of_awaits {side : Side} {got : List UInt8} {events : List Event}
    (h : σ.Awaits side got)
    (htaken : ∀ side', taken side' events = if side = side' then got else [])
    (hwrites : Event.writes events = []) :
    Forwards (σ.events ++ events) σ.sentBy σ.reply σ.answer
      (fun side' => if side = side' then got else []) where
  side_eq side' p hp := σ.side_of_mem_sentBy hp
  taken_frontend := by rw [taken_append, σ.taken_events, htaken]; rfl
  written_backend := by
    rw [written_append, σ.written_backend_events, written, hwrites]
    simp
  taken_backend := by rw [taken_append, σ.taken_events, htaken]; rfl
  written_frontend := by
    rw [written_append, σ.written_frontend_events, written, hwrites]
    simp
  exchange := σ.exchange
  one_frame := ⟨side, if_neg (Side.other_ne side).symm, by simpa using h.inProgress⟩

end Session

/-- A part of a reply to a request for TLS holds the byte of the backend before the answer to the
frontend. -/
theorem TlsReply.cases_of_isPrefix {r : TlsReply} {events : List Event} (h : events <+: r.events) :
    taken .frontend events = [] ∧
      (Event.writes events = [] ∧
          (taken .backend events = [] ∨ taken .backend events = [r.byte]) ∨
        Event.writes events = [(.frontend, [tlsSupported])] ∧
          taken .backend events = [r.byte]) := by
  obtain ⟨n, rfl⟩ : ∃ n, events = r.events.take n := ⟨_, List.prefix_iff_eq_take.mp h⟩
  rcases r with ⟨_ | _, b, f⟩
  · rcases n with _ | _ | _ | _ | n <;> simp [TlsReply.events, Event.taken, Event.writes]
  · rcases n with _ | _ | _ | _ | _ | _ | n <;>
      simp [TlsReply.events, Event.taken, Event.writes]

/-- A run that is stopped anywhere has written what it has consumed. -/
theorem forwards_of_unfinished {σ : Session} {events : List Event} (h : σ.Unfinished events) :
    ∃ sent reply answer rest, Forwards (σ.events ++ events) sent reply answer rest := by
  cases h with
  | tail h =>
    cases h with
    | @reading side got hgot =>
      exact ⟨_, _, _, _, Session.forwards_of_awaits hgot
        (fun side' => taken_map_took side' _ got side) (by simp)⟩
    | @replying p r events hp hσ hpre =>
      subst hσ
      have hside := Packet.side_of_isTls hp
      obtain ⟨hfrontend, ⟨hwrites, hbackend⟩ | ⟨hwrites, hbackend⟩⟩ :=
        TlsReply.cases_of_isPrefix hpre
      · -- the reply of the backend has at most been read
        refine ⟨_, _, _, _, @Session.forwards_of_awaits (.add .empty p) .backend
          (taken .backend events) events ?_ ?_ hwrites⟩
        · show WithinFrame (taken .backend events)
          rcases hbackend with hnil | hbyte
          · exact .inl hnil
          · exact .inr ⟨_, _, hbyte, .inl (Nat.zero_le _)⟩
        · rintro (_ | _)
          · rfl
          · exact hfrontend
      · -- the frontend has got the answer of the proxy
        refine ⟨(Session.empty.add p).sentBy, [r.byte], [tlsSupported], fun _ => [], ?_⟩
        constructor
        · exact fun side q hq => Session.side_of_mem_sentBy _ hq
        · rw [taken_append, Session.taken_events, hfrontend]
          rfl
        · rw [written_append, Session.written_backend_events, written, hwrites]
          exact List.append_nil _
        · rw [taken_append, Session.taken_events, hbackend]
          simp [Session.sentBy, Session.reply, Session.add, Session.empty, Session.conveyed, hside]
        · rw [written_append, Session.written_frontend_events, written, hwrites]
          simp [Session.sentBy, Session.answer, Session.add, Session.empty, Session.conveyed, hside]
        · refine .inr ⟨?_, rfl, p, [], by
            simp [Session.sentBy, Session.add, Session.empty, Session.conveyed, hside], hp⟩
          rcases r with ⟨_ | _, b, f⟩
          · exact .inr rfl
          · exact .inl rfl
        · exact ⟨.backend, rfl, .inl (.inl rfl)⟩
  | reported p hp =>
    refine ⟨_, _, _, _,
      Session.forwards_of_awaits (Session.awaits_of_expects hp) (fun side => ?_) ?_⟩
    · rw [taken_append, taken_map_took]
      simp [taken]
    · rw [writes_append, writes_map_took]
      rfl

/-- The trace of a run that succeeds leaves nothing unwritten. -/
theorem forwards_of_session (σ : Session) :
    Forwards σ.events σ.sentBy σ.reply σ.answer (fun _ => []) where
  side_eq side p hp := σ.side_of_mem_sentBy hp
  taken_frontend := by rw [σ.taken_events, List.append_nil]; rfl
  written_backend := σ.written_backend_events
  taken_backend := by rw [σ.taken_events, List.append_nil]; rfl
  written_frontend := σ.written_frontend_events
  exchange := σ.exchange
  one_frame := ⟨.backend, rfl, .inl (.inl rfl)⟩

/-- However the streams arrive and wherever a run is stopped: what was written to the backend are
whole frames that were consumed from the frontend, and what was written to the frontend are whole
frames that were consumed from the backend, but for the answer to a request for TLS. What was
consumed and not written is at most one message in progress, nothing if the run has succeeded. -/
theorem go_transparent (frontend backend : Stream)
    (frontendTlsServer backendTlsClient : TlsProvider) (overflowChecks : Bool) (stop : ℕ) :
    let run := go (new frontend backend frontendTlsServer backendTlsClient overflowChecks)
    let tr := run.2.trace.take stop
    ∃ sent reply answer rest, Forwards tr sent reply answer rest ∧
      (run.1 = .ok ⟨⟩ ∧ run.2.trace.length ≤ stop → ∀ side, rest side = []) ∧
      Consumed frontend frontendTlsServer (taken .frontend tr) ∧
      Consumed backend backendTlsClient (taken .backend tr) := by
  intro run tr
  have hfresh := fresh_new frontend backend frontendTlsServer backendTlsClient overflowChecks
  have hconsumed (side : Side) : Consumed (bySide frontend backend side)
      (bySide frontendTlsServer backendTlsClient side) (taken side tr) := by
    have haccounted := (accounted_new frontend backend frontendTlsServer backendTlsClient
      overflowChecks).go hfresh
    obtain ⟨hclear, hsecret⟩ := haccounted.consumed side
    refine @Consumed.of_isPrefix _ _ (taken side run.2.trace) _
      ⟨_, _, taken_of_stopped (stopped_of_isPrefix hfresh (List.prefix_refl _)) side, hclear, ?_⟩
      ((List.take_prefix stop run.2.trace).filterMap _)
    exact hsecret.imp_right fun ⟨rest, session, _, hsession⟩ => ⟨rest, session, hsession⟩
  -- a run that has come to its end, or one that is stopped or has failed on the way
  by_cases hdone : run.1 = .ok ⟨⟩ ∧ run.2.trace.length ≤ stop
  · obtain ⟨σ, events, htrace, -, -, hnil⟩ := go_session hfresh (show _ = (run.1, run.2) from rfl)
    have htr : tr = σ.events := by
      show run.2.trace.take stop = σ.events
      rw [List.take_of_length_le hdone.2, htrace, hnil hdone.1, List.append_nil]
    exact ⟨_, _, _, _, by rw [htr]; exact forwards_of_session σ, fun _ _ => rfl,
      hconsumed .frontend, hconsumed .backend⟩
  · obtain ⟨σ, events, hevents, htr⟩ :=
      stopped_of_isPrefix hfresh (List.take_prefix stop run.2.trace)
    obtain ⟨sent, reply, answer, rest, hforwards⟩ := forwards_of_unfinished hevents
    exact ⟨sent, reply, answer, rest, by rw [← htr] at hforwards; exact hforwards,
      fun h => absurd h hdone, hconsumed .frontend, hconsumed .backend⟩

/-! ## Every message that is reported -/

/-- The bytes that were consumed, with the sides that they came from. -/
def Event.takes (tr : List Event) : List (Side × UInt8) :=
  tr.filterMap fun
    | took side _ byte => some (side, byte)
    | _ => none

/-- The bytes of a trace of two parts. -/
@[simp] theorem Event.takes_append (tr tr' : List Event) :
    takes (tr ++ tr') = takes tr ++ takes tr' :=
  List.filterMap_append

/-- The bytes of a packet, with the side that it comes from. -/
def Packet.takes (p : Packet) : List (Side × UInt8) := p.bytes.map fun byte => (p.side, byte)

/-- A packet is consumed byte by byte. -/
theorem Packet.takes_events (p : Packet) (layers : Side → Layer) :
    Event.takes (p.events layers) = p.takes := by
  simp [Event.takes, Packet.events, Packet.report, Packet.takes, List.filterMap_map]

/-- The reply is a single byte. -/
theorem TlsReply.takes_events (r : TlsReply) :
    Event.takes r.events = [(.backend, r.byte)] := by
  rcases r with ⟨_ | _, b, f⟩ <;> rfl

/-- The bytes of a session: those of the packets, and the reply to the request for TLS after it. -/
def Session.takes (σ : Session) : List (Side × UInt8) :=
  (σ.upgrade.map fun x => x.1.takes ++ [(.backend, x.2.byte)]).getD [] ++
    σ.packets.flatMap Packet.takes

/-- The bytes in the trace of a session. -/
theorem Session.takes_events (σ : Session) : Event.takes σ.events = σ.takes := by
  rw [σ.apply_events Event.takes rfl takes_append, takes]
  simp only [Packet.takes_events, TlsReply.takes_events]

/-- Nothing is reported after the session, and at most the answer to the request for TLS is written.
-/
theorem callbacks_of_tail {σ : Session} {events : List Event} (h : σ.Tail events) :
    callbacks events = [] ∧
      (Event.writes events = [] ∨ Event.writes events = [(.frontend, [tlsSupported])]) := by
  cases h with
  | reading => exact ⟨callbacks_map_took _ _ _, .inl (writes_map_took _ _ _)⟩
  | @replying p r events hp hσ hpre =>
    refine ⟨?_, ?_⟩
    · have hnone : callbacks events <+: callbacks r.events := hpre.filterMap _
      rw [r.callbacks_events] at hnone
      exact List.prefix_nil.mp hnone
    · obtain ⟨-, ⟨hwrites, -⟩ | ⟨hwrites, -⟩⟩ := TlsReply.cases_of_isPrefix hpre
      · exact .inl hwrites
      · exact .inr hwrites

/-- What was reported in a run are the messages of the packets that were written, in the order in
which they were consumed. The events of a packet are its bytes, the callback, and the write. -/
theorem go_observed (frontend backend : Stream) (frontendTlsServer backendTlsClient : TlsProvider)
    (overflowChecks : Bool) :
    let run := go (new frontend backend frontendTlsServer backendTlsClient overflowChecks)
    ∃ (σ : Session) (tail : List Event),
      run.2.trace = σ.events ++ tail ∧ σ.Tail tail ∧ (run.1 = .ok ⟨⟩ → tail = []) ∧
      callbacks run.2.trace = σ.conveyed.map Packet.message ∧
      Event.writes run.2.trace = σ.writes ++ Event.writes tail ∧
      (Event.writes tail = [] ∨ Event.writes tail = [(.frontend, [tlsSupported])]) ∧
      Event.takes run.2.trace = σ.takes ++ Event.takes tail ∧
      ∀ p ∈ σ.conveyed, p.message = p.type.wrap p.msg ∧ p.side = p.type.side ∧
        ∃ source, MsgDecode.decodeBody (BytesSource.new p.body) = (.ok p.msg, source) ∧
          source.left = 0 := by
  intro run
  have hfresh := fresh_new frontend backend frontendTlsServer backendTlsClient overflowChecks
  obtain ⟨σ, tail, htrace, -, htail, hnil⟩ := go_session hfresh (show _ = (run.1, run.2) from rfl)
  obtain ⟨hcallbacks, hwrites⟩ := callbacks_of_tail htail
  refine ⟨σ, tail, htrace, htail, hnil, ?_, ?_, hwrites, ?_, fun p _ => ⟨rfl, rfl, ?_⟩⟩
  · rw [htrace, callbacks_append, hcallbacks, σ.callbacks_events, List.append_nil]
  · rw [htrace, writes_append, σ.writes_events]
  · rw [htrace, takes_append, σ.takes_events]
  · exact msgResult_eq_ok.mp p.decodes

end Postgread
