import Postgread.Convey.Go

/-!
# The past of a conversation

What the main loop does depends on the streams and the state alone, not on what has been conveyed
before: two conveyors with the same streams go on with the same result, and add the same events to
their traces (`loop_forgetful`).
-/

namespace Postgread.Conveyor

open Body

/-- Conveyors with the same streams that have added the same events to two traces. -/
structure Alike (past past' : List Event) (c d : Conveyor) : Prop where
  wrap_eq : ∀ side, d.wrap side = c.wrap side
  overflowChecks_eq : d.overflowChecks = c.overflowChecks
  trace_eq : ∃ events, c.trace = past ++ events ∧ d.trace = past' ++ events

/-- A procedure that does not depend on the past. -/
abbrev Forgetful {α : Type} (x : ConveyM α) : Prop :=
  ∀ past past', x.Respects (Alike past past')

namespace Alike

variable {past past' : List Event} {c d : Conveyor}

/-- Conveyors with the same streams have added nothing to their traces yet. -/
theorem of_wrap_eq (hwrap : ∀ side, d.wrap side = c.wrap side)
    (hchecks : d.overflowChecks = c.overflowChecks) : Alike c.trace d.trace c d :=
  ⟨hwrap, hchecks, [], by simp, by simp⟩

/-- Logging the same keeps them alike. -/
theorem log (h : Alike past past' c d) (events : List Event) :
    Alike past past' (c.log events) (d.log events) := by
  obtain ⟨events₀, hc, hd⟩ := h.trace_eq
  refine ⟨fun side => ?_, h.overflowChecks_eq, events₀ ++ events, ?_, ?_⟩
  · rw [wrap_log, wrap_log, h.wrap_eq]
  · rw [trace_log, hc, List.append_assoc]
  · rw [trace_log, hd, List.append_assoc]

/-- Setting the same wrap keeps them alike. -/
theorem setWrap (h : Alike past past' c d) (side : Side) (w : StreamWrap) :
    Alike past past' (c.setWrap side w) (d.setWrap side w) := by
  refine ⟨fun side' => ?_, ?_, ?_⟩
  · obtain rfl | rfl := side.eq_or_eq_other side'
    · rw [wrap_setWrap_self, wrap_setWrap_self]
    · rw [wrap_setWrap_other, wrap_setWrap_other, h.wrap_eq]
  · rw [overflowChecks_setWrap, overflowChecks_setWrap, h.overflowChecks_eq]
  · rw [trace_setWrap, trace_setWrap]
    exact h.trace_eq

/-- They have equally many bytes left. -/
theorem bytesLeft_eq (h : Alike past past' c d) : d.bytesLeft = c.bytesLeft := by
  have hbackend : d.backend = c.backend := h.wrap_eq .backend
  have hfrontend : d.frontend = c.frontend := h.wrap_eq .frontend
  rw [bytesLeft, bytesLeft, hbackend, hfrontend]

end Alike

/-! ## The operations -/

/-- Reading through a wrap does not depend on the past. -/
theorem unwrapStream_forgetful {α : Type} (side : Side) (read : Reading ConveyError α) :
    Forgetful (unwrapStream side read) := by
  intro past past' c d h
  have hread (layer : Layer) (s : Stream) :
      (readAt side layer s read d).1 = (readAt side layer s read c).1 ∧
        Alike past past' (readAt side layer s read c).2 (readAt side layer s read d).2 :=
    ⟨rfl, (h.setWrap side _).log _⟩
  simp only [unwrapStream, h.wrap_eq side]
  rcases c.wrap side with s | _ | s
  · exact hread .plain s
  · exact ⟨rfl, h⟩
  · exact hread .tls s

/-- Writing does not depend on the past. -/
theorem write_forgetful (side : Side) (bytes : List UInt8) : Forgetful (write side bytes) := by
  intro past past' c d h
  simp only [write, h.wrap_eq side]
  rcases c.wrap side with s | _ | s
  · exact ⟨rfl, h.log _⟩
  · exact ⟨rfl, h⟩
  · exact ⟨rfl, h.log _⟩

/-- Calling the callback does not depend on the past. -/
theorem callback_forgetful (msg : Message) : Forgetful (callback msg) :=
  fun _ _ _ _ h => ⟨rfl, h.log _⟩

/-- Conveying a message does not depend on the past. -/
theorem readThrough_forgetful (t : MsgType) : Forgetful (readThrough t) := by
  intro past past'
  have hread : (read t).Respects (Alike past past') := by
    intro c d h
    rw [read, read, h.overflowChecks_eq]
    exact unwrapStream_forgetful t.side _ past past' c d h
  exact hread.bind fun _ => (callback_forgetful _ past past').bind fun _ =>
    (write_forgetful _ _ past past').bind fun _ => .pure _

/-- The race of the two type bytes does not depend on the past. -/
theorem selectTypeByte_forgetful : Forgetful selectTypeByte := by
  intro past past' c d h
  have hbackend : d.backend = c.backend := h.wrap_eq .backend
  have hfrontend : d.frontend = c.frontend := h.wrap_eq .frontend
  have htook (side : Side) (layer : Layer) (result : Except ConveyError UInt8) :
      Forgetful (tookTypeByte side layer result) := by
    intro past past' c d h
    rcases result with e | byte
    · exact ⟨rfl, h⟩
    · exact ⟨rfl, h.log _⟩
  have hwraps (b f : StreamWrap) : Alike past past' { c with backend := b, frontend := f }
      { d with backend := b, frontend := f } :=
    (h.setWrap .backend b).setWrap .frontend f
  simp only [selectTypeByte, rounds, hbackend, hfrontend]
  rcases select StreamWrap.pollTypeByte StreamWrap.pollTypeByte _ c.backend c.frontend
    with ⟨_ | (result | result), b, f⟩
  · exact ⟨rfl, hwraps b f⟩
  · exact htook .backend b.layer result past past' _ _ (hwraps b f)
  · exact htook .frontend f.layer result past past' _ _ (hwraps b f)

/-! ## The main loop -/

/-- A round of the main loop does not depend on the past. -/
theorem loopBody_forgetful (s : State) : Forgetful (loopBody s) := by
  intro past past'
  have hrace : readTypeByteFromBoth.Respects (Alike past past') := by
    refine (selectTypeByte_forgetful past past').bind fun (side, byte) => ?_
    simp only
    rcases TypeByte.tryFrom byte with _ | typeByte
    · exact .fail _
    · exact .pure _
  refine hrace.bind fun (side, typeByte) => ?_
  simp only
  rcases arm side typeByte s with _ | ⟨t, next⟩ | _
  · refine .map _ ((readThrough_forgetful _ past past').bind fun authentication => ?_)
    rcases afterAuthentication typeByte authentication s with e | s'
    · exact .fail _
    · exact .pure _
  · exact (readThrough_forgetful t past past').bind fun _ => .pure _
  · exact .fail _

/-- The main loop does not depend on the past. -/
theorem loop_forgetful (s : State) : Forgetful (loop s) := by
  intro past past' c d h
  -- equally many bytes make equally many rounds
  rw [loop, loop, h.bytesLeft_eq]
  exact respects_iterate (fun s => loopBody_forgetful s past past') _ s c d h

/-! ## What never changes -/

/-- A property of conveyors that depends neither on the streams nor on the trace. -/
structure Fixed (P : Conveyor → Prop) : Prop where
  log : ∀ {c : Conveyor} (events : List Event), P c → P (c.log events)
  setWrap : ∀ {c : Conveyor} (side : Side) (w : StreamWrap), P c → P (c.setWrap side w)

namespace Fixed

variable {P : Conveyor → Prop}

/-- Reading through a wrap changes nothing that is fixed. -/
theorem unwrapStream (h : Fixed P) {α : Type} (side : Side) (read : Reading ConveyError α) :
    (unwrapStream side read).Keeps P := by
  intro c hc
  rw [Conveyor.unwrapStream]
  rcases c.wrap side with s | _ | s
  · exact h.log _ (h.setWrap side _ hc)
  · exact hc
  · exact h.log _ (h.setWrap side _ hc)

/-- Writing changes nothing that is fixed. -/
theorem write (h : Fixed P) (side : Side) (bytes : List UInt8) : (write side bytes).Keeps P := by
  intro c hc
  rw [Conveyor.write]
  rcases c.wrap side with s | _ | s
  · exact h.log _ hc
  · exact hc
  · exact h.log _ hc

/-- Conveying a message changes nothing that is fixed. -/
theorem readThrough (h : Fixed P) (t : MsgType) : (readThrough t).Keeps P := by
  have hread : (read t).Keeps P := fun c hc => h.unwrapStream t.side _ c hc
  have hcallback (msg : Message) : (callback msg).Keeps P := fun _ hc => h.log _ hc
  exact hread.bind fun _ => (hcallback _).bind fun _ => (h.write _ _).bind fun _ => .pure _

/-- Switching to TLS changes nothing that is fixed. -/
theorem switchToTls (h : Fixed P) (side : Side) (handshake : TlsProvider) :
    (switchToTls side handshake).Keeps P := by
  intro c hc
  rw [Conveyor.switchToTls]
  split
  · exact h.setWrap _ _ hc
  · exact h.setWrap _ _ hc
  · rename_i plainStream wrap _
    have hbegun := h.log [.handshakeBegun side plainStream] (h.setWrap side wrap hc)
    dsimp only
    split
    · exact hbegun
    · split
      · exact h.log _ (h.setWrap _ _ hbegun)
      · exact h.setWrap _ _ hbegun

/-- Replying to a request for TLS changes nothing that is fixed. -/
theorem replyToTls (h : Fixed P) : replyToTls.Keeps P := by
  have hserver : acceptTls.Keeps P :=
    (h.write _ _).bind fun _ c hc => h.switchToTls .frontend c.frontendTlsServer c hc
  have hclient : switchClientToTls.Keeps P := fun c hc => h.switchToTls .backend _ c hc
  refine (h.unwrapStream .backend readTypeByte).bind fun byte => ?_
  split
  · exact hserver.bind fun _ => .pure _
  split
  · exact hclient.bind fun _ => hserver.bind fun _ => .pure _
  split
  · exact (h.readThrough _).bind fun _ => .pure _
  · exact .fail _

/-- The race of the two type bytes changes nothing that is fixed. -/
theorem selectTypeByte (h : Fixed P) : selectTypeByte.Keeps P := by
  intro c hc
  have hwraps (b f : StreamWrap) : P { c with backend := b, frontend := f } :=
    h.setWrap .frontend f (h.setWrap .backend b hc)
  have htook (side : Side) (layer : Layer) (result : Except ConveyError UInt8) :
      (tookTypeByte side layer result).Keeps P := by
    intro c hc
    rcases result with e | byte
    · exact hc
    · exact h.log _ hc
  rw [Conveyor.selectTypeByte]
  split
  · exact hwraps _ _
  · exact htook _ _ _ _ (hwraps _ _)
  · exact htook _ _ _ _ (hwraps _ _)

/-- A round of the main loop changes nothing that is fixed. -/
theorem loopBody (h : Fixed P) (s : State) : (loopBody s).Keeps P := by
  have hrace : readTypeByteFromBoth.Keeps P := by
    refine h.selectTypeByte.bind fun (side, byte) => ?_
    dsimp only
    split
    · exact .pure _
    · exact .fail _
  refine hrace.bind fun (side, typeByte) => ?_
  dsimp only
  split
  · refine .map _ ((h.readThrough _).bind fun authentication => ?_)
    split
    · exact .pure _
    · exact .fail _
  · exact (h.readThrough _).bind fun _ => .pure _
  · exact .fail _

/-- A step changes nothing that is fixed. -/
theorem step (h : Fixed P) (ph : Phase) : (step ph).Keeps P := by
  cases ph with
  | initial =>
    refine (h.readThrough _).bind fun i => ?_
    split <;> exact .pure _
  | tlsReply =>
    refine h.replyToTls.bind fun accepted => ?_
    split <;> exact .pure _
  | initialInsideTls =>
    refine (h.readThrough _).bind fun i => ?_
    split
    · exact .pure _
    · exact .pure _
    · exact .fail _
  | looping s => exact (h.loopBody s).map _

/-- A run changes nothing that is fixed. -/
theorem reaches (h : Fixed P) {x y : Phase × Conveyor} (hreach : Reaches Conveyor.step x y)
    (hx : P x.2) : P y.2 := by
  refine @Reaches.preserves _ _ _ Conveyor.step x y (fun x => P x.2) (fun x y hxy hx => ?_)
    hreach hx
  have hkeeps := h.step x.1 x.2 hx
  rwa [hxy] at hkeeps

end Fixed

/-- Whether the build checks overflows is fixed. -/
theorem fixed_overflowChecks (b : Bool) : Fixed fun c => c.overflowChecks = b :=
  ⟨fun _ h => h, fun _ _ h => (overflowChecks_setWrap _ _ _).trans h⟩

end Postgread.Conveyor
