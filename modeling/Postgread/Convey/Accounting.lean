import Postgread.Convey.Run

/-!
# Accounting for the bytes of the streams

`Accounted` relates the trace to the streams that the conveyor was given: what was consumed of each
stream and what is still to come make up the stream, and the stream of a TLS session is what the TLS
library made of the rest of the plain one. Every operation keeps this, so every run does
(`Accounted.go`); nothing is assumed about the state or about the order in which bytes arrive.
-/

namespace Postgread

namespace Event

/-- The bytes that were consumed from a side at a layer. -/
def takenAt (side : Side) (layer : Layer) (tr : List Event) : List UInt8 :=
  tr.filterMap fun
    | took side' layer' byte => if side' = side ∧ layer' = layer then some byte else none
    | _ => none

/-- Nothing is consumed in an empty trace. -/
@[simp] theorem takenAt_nil (side : Side) (layer : Layer) : takenAt side layer [] = [] := rfl

/-- What is consumed in a trace is consumed in its parts, one after the other. -/
@[simp] theorem takenAt_append (side : Side) (layer : Layer) (tr tr' : List Event) :
    takenAt side layer (tr ++ tr') = takenAt side layer tr ++ takenAt side layer tr' :=
  List.filterMap_append

/-- Taking bytes consumes them. -/
theorem takenAt_map_took_self (side : Side) (layer : Layer) (bytes : List UInt8) :
    takenAt side layer (bytes.map (took side layer)) = bytes := by
  simp only [takenAt, List.filterMap_map, Function.comp_def]
  simp

/-- Taking bytes of another side or layer consumes nothing here. -/
theorem takenAt_map_took_of_ne {side side' : Side} {layer layer' : Layer}
    (h : ¬ (side' = side ∧ layer' = layer)) (bytes : List UInt8) :
    takenAt side layer (bytes.map (took side' layer')) = [] := by
  simp only [takenAt, List.filterMap_map, Function.comp_def]
  simp [h]

end Event

open Event

namespace Conveyor

/-- A value for each side. -/
def bySide {α : Type} (frontend backend : α) : Side → α
  | .backend => backend
  | .frontend => frontend

/-- The trace accounts for one side of the conveyor, which began as the plain stream `source` with
the TLS library `tls`. -/
structure AccountedAt (source : Stream) (tls : TlsProvider) (c : Conveyor) (side : Side) :
    Prop where
  provider_eq : c.provider side = tls
  plain : ∀ s, c.wrap side = .plain s →
    Script.tokens source = takenAt side .plain c.trace ++ Script.tokens s ∧
      takenAt side .tls c.trace = [] ∧ ∀ s', .handshakeBegun side s' ∉ c.trace
  handed : ∀ s, .handshakeBegun side s ∈ c.trace →
    Script.tokens source = takenAt side .plain c.trace ++ Script.tokens s
  handshake : c.wrap side = .tlsHandshake →
    takenAt side .tls c.trace = [] ∧ ∃ s, .handshakeBegun side s ∈ c.trace
  tls : ∀ s, c.wrap side = .tls s → ∃ rest session, .handshakeBegun side rest ∈ c.trace ∧
    tls rest = .ok session ∧
    Script.tokens session = takenAt side .tls c.trace ++ Script.tokens s

/-- The trace accounts for both streams. -/
def Accounted (sources : Side → Stream) (tls : Side → TlsProvider) (c : Conveyor) : Prop :=
  ∀ side, AccountedAt (sources side) (tls side) c side

variable {sources : Side → Stream} {tls : Side → TlsProvider} {c : Conveyor}

/-- What does not concern a side keeps its account. -/
theorem AccountedAt.frame {source : Stream} {tls : TlsProvider} {c c' : Conveyor} {side : Side}
    (h : AccountedAt source tls c side) (hwrap : c'.wrap side = c.wrap side)
    (hprovider : c'.provider side = c.provider side)
    (htaken : ∀ layer, takenAt side layer c'.trace = takenAt side layer c.trace)
    (hbegun : ∀ s, .handshakeBegun side s ∈ c'.trace ↔ .handshakeBegun side s ∈ c.trace) :
    AccountedAt source tls c' side := by
  constructor
  · rw [hprovider]
    exact h.provider_eq
  all_goals simp only [hwrap, htaken, hbegun]
  -- every clause of the account speaks of the wrap, the bytes and the handshakes of the side alone
  · exact h.plain
  · exact h.handed
  · exact h.handshake
  · exact h.tls

/-- Reading on keeps the account. -/
theorem Accounted.read (h : Accounted sources tls c) {side : Side} {layer : Layer} {s s' : Stream}
    {got : List UInt8} (hwrap : c.wrap side = .ofLayer layer s)
    (htokens : Script.tokens s = got ++ Script.tokens s') :
    Accounted sources tls
      ((c.setWrap side (.ofLayer layer s')).log (got.map (Event.took side layer))) := by
  intro side'
  have hbegun (s₁ : Stream) :
      .handshakeBegun side' s₁ ∈ c.trace ++ got.map (Event.took side layer) ↔
        .handshakeBegun side' s₁ ∈ c.trace := by simp
  -- only the account of `side` changes
  rcases side.eq_or_eq_other side' with rfl | rfl
  · constructor
    · simpa using (h side').provider_eq
    · intro s₁ hs₁
      rw [wrap_log, wrap_setWrap_self] at hs₁
      obtain ⟨rfl, rfl⟩ : layer = .plain ∧ s' = s₁ := StreamWrap.ofLayer_injective hs₁
      obtain ⟨hplain, htls, hnone⟩ := (h side').plain s hwrap
      simp only [trace_log, trace_setWrap, takenAt_append, hbegun]
      rw [takenAt_map_took_self, takenAt_map_took_of_ne (by simp), hplain, htokens, htls]
      exact ⟨by simp, rfl, hnone⟩
    · intro s₁ hs₁
      simp only [trace_log, trace_setWrap, hbegun] at hs₁ ⊢
      -- bytes of the plain stream can still be read, so none of it has been handed over
      rcases layer with _ | _
      · exact absurd hs₁ (((h side').plain s hwrap).2.2 s₁)
      · rw [takenAt_append, takenAt_map_took_of_ne (by simp), List.append_nil]
        exact (h side').handed s₁ hs₁
    · intro hs₁
      rw [wrap_log, wrap_setWrap_self] at hs₁
      exact absurd hs₁ (StreamWrap.ofLayer_ne_tlsHandshake _ _)
    · intro s₁ hs₁
      rw [wrap_log, wrap_setWrap_self] at hs₁
      obtain ⟨rfl, rfl⟩ : layer = .tls ∧ s' = s₁ := StreamWrap.ofLayer_injective hs₁
      obtain ⟨rest, session, hrest, hsession, htls⟩ := (h side').tls s hwrap
      simp only [trace_log, trace_setWrap, takenAt_append, hbegun]
      refine ⟨rest, session, hrest, hsession, ?_⟩
      rw [takenAt_map_took_self, htls, htokens, List.append_assoc]
  · refine (h side.other).frame (by simp) (by simp) (fun layer' => ?_) fun s₁ => ?_
    · rw [trace_log, trace_setWrap, takenAt_append,
        takenAt_map_took_of_ne fun h => side.other_ne h.1.symm, List.append_nil]
    · rw [trace_log, trace_setWrap]
      exact hbegun s₁

/-- What is neither reading nor handing over keeps the account. -/
theorem Accounted.log (h : Accounted sources tls c) {events : List Event}
    (htaken : ∀ side layer, takenAt side layer events = [])
    (hbegun : ∀ side s, .handshakeBegun side s ∉ events) :
    Accounted sources tls (c.log events) := by
  intro side
  refine (h side).frame (wrap_log ..) (provider_log ..) (fun layer => ?_) fun s => ?_
  · rw [trace_log, takenAt_append, htaken, List.append_nil]
  · simp only [trace_log, List.mem_append, hbegun, or_false]

/-- Handing the rest of a plain stream to the TLS library keeps the account. -/
theorem Accounted.handshakeBegun (h : Accounted sources tls c) {side : Side} {s : Stream}
    (hwrap : c.wrap side = .plain s) :
    Accounted sources tls ((c.setWrap side .tlsHandshake).log [.handshakeBegun side s]) := by
  intro side'
  have htaken (layer : Layer) : takenAt side' layer (c.trace ++ [.handshakeBegun side s]) =
      takenAt side' layer c.trace := by simp [takenAt]
  rcases side.eq_or_eq_other side' with rfl | rfl
  -- the wrap is plain no more, and what is left of the stream is what was handed over
  · obtain ⟨hplain, hnotTls, hnone⟩ := (h side').plain s hwrap
    constructor
    · simpa using (h side').provider_eq
    · intro s₁ hs₁
      simp at hs₁
    · intro s₁ hs₁
      simp only [trace_log, trace_setWrap, List.mem_append, hnone, List.mem_singleton,
        Event.handshakeBegun.injEq, true_and, false_or] at hs₁
      subst hs₁
      simp only [trace_log, trace_setWrap, htaken]
      exact hplain
    · intro _
      simp only [trace_log, trace_setWrap, htaken]
      exact ⟨hnotTls, s, by simp⟩
    · intro s₁ hs₁
      simp at hs₁
  · refine (h side.other).frame (by simp) (by simp) (fun layer => ?_) fun s₁ => ?_
    · rw [trace_log, trace_setWrap, htaken]
    · simp [side.other_ne]

/-- Going on with the session that the TLS library returned keeps the account. -/
theorem Accounted.setTls (h : Accounted sources tls c) {side : Side} {rest session : Stream}
    (hbegun : .handshakeBegun side rest ∈ c.trace) (htaken : takenAt side .tls c.trace = [])
    (hsession : c.provider side rest = .ok session) :
    Accounted sources tls (c.setWrap side (.tls session)) := by
  intro side'
  rcases side.eq_or_eq_other side' with rfl | rfl
  · constructor
    · simpa using (h side').provider_eq
    · intro s hs
      simp at hs
    · intro s hs
      rw [trace_setWrap] at hs ⊢
      exact (h side').handed s hs
    · intro hs
      simp at hs
    · intro s hs
      obtain rfl : session = s := by simpa using hs
      refine ⟨rest, session, by rwa [trace_setWrap], ?_, by rw [trace_setWrap, htaken]; rfl⟩
      rw [← (h side').provider_eq, hsession]
  · exact (h side.other).frame (by simp) (by simp) (fun layer => by rw [trace_setWrap])
      fun s => by rw [trace_setWrap]

/-! ## The operations -/

/-- A procedure of the conveyor that keeps the account. -/
abbrev KeepsAccount (sources : Side → Stream) (tls : Side → TlsProvider) {α : Type}
    (x : ConveyM α) : Prop :=
  x.Keeps (Accounted sources tls)

/-- Reading through a wrap keeps the account if the read accounts for what it takes. -/
theorem unwrapStream_keeps {α : Type} {read : Reading ConveyError α} (hread : Honest read)
    (side : Side) : KeepsAccount sources tls (unwrapStream side read) := by
  intro c h
  have hlayer (layer : Layer) {s : Stream} (hs : c.wrap side = .ofLayer layer s) :
      Accounted sources tls (readAt side layer s read c).2 := by
    obtain ⟨got, htaken, htokens⟩ := hread ⟨s, []⟩
    rcases hresult : read ⟨s, []⟩ with ⟨r, reader⟩
    rw [hresult] at htaken htokens
    simp only [readAt, hresult]
    rw [htaken]
    exact h.read hs htokens
  rw [unwrapStream]
  rcases hwrap : c.wrap side with s | _ | s
  · exact hlayer .plain hwrap
  · exact h
  · exact hlayer .tls hwrap

/-- Writing keeps the account. -/
theorem write_keeps (side : Side) (bytes : List UInt8) :
    KeepsAccount sources tls (write side bytes) := by
  intro c h
  rw [write]
  split
  · exact h.log (fun _ _ => rfl) (by simp)
  · exact h
  · exact h.log (fun _ _ => rfl) (by simp)

/-- Calling the callback keeps the account. -/
theorem callback_keeps (msg : Message) : KeepsAccount sources tls (callback msg) :=
  fun _ h => h.log (fun _ _ => rfl) (by simp)

/-- Conveying a message keeps the account. -/
theorem readThrough_keeps (t : MsgType) : KeepsAccount sources tls (readThrough t) := by
  have hread : KeepsAccount sources tls (read t) := fun c h =>
    unwrapStream_keeps (readMsgMappingErr_honest c.overflowChecks) t.side c h
  exact hread.bind fun _ => (callback_keeps _).bind fun _ =>
    (write_keeps _ _).bind fun _ => Proc.Keeps.pure _

end Conveyor

/-- `Yields w got w'`: polls of the wrap `w` have brought `got` and left `w'`. -/
def StreamWrap.Yields (w : StreamWrap) (got : List UInt8) (w' : StreamWrap) : Prop :=
  (∃ layer s s', w = ofLayer layer s ∧ w' = ofLayer layer s' ∧
      Script.tokens s = got ++ Script.tokens s') ∨
    got = [] ∧ w = tlsHandshake ∧ w' = tlsHandshake

namespace StreamWrap

/-- No poll brings nothing. -/
theorem Yields.refl (w : StreamWrap) : Yields w [] w := by
  rcases w with s | _ | s
  · exact .inl ⟨.plain, s, s, rfl, rfl, rfl⟩
  · exact .inr ⟨rfl, rfl, rfl⟩
  · exact .inl ⟨.tls, s, s, rfl, rfl, rfl⟩

/-- What polls bring one after the other adds up. -/
theorem Yields.trans {w w' w'' : StreamWrap} {got got' : List UInt8} (h : Yields w got w')
    (h' : Yields w' got' w'') : Yields w (got ++ got') w'' := by
  rcases h with ⟨layer, s, s', rfl, rfl, htokens⟩ | ⟨rfl, rfl, rfl⟩
  · rcases h' with ⟨layer', t, t', heq, rfl, htokens'⟩ | ⟨-, heq, -⟩
    · obtain ⟨rfl, rfl⟩ := ofLayer_injective heq
      exact .inl ⟨layer, s, t', rfl, rfl, by rw [htokens, htokens', List.append_assoc]⟩
    · exact absurd heq (ofLayer_ne_tlsHandshake _ _)
  · exact h'

/-- The byte that a poll brings. -/
def polled : Poll (Except ConveyError UInt8) → List UInt8
  | .ready (.ok byte) => [byte]
  | _ => []

/-- A poll brings its byte, if it is ready with one. -/
theorem pollTypeByte_yields (w : StreamWrap) :
    Yields w (polled (pollTypeByte w).1) (pollTypeByte w).2 := by
  have hlayer (layer : Layer) (s : Stream) : Yields (ofLayer layer s)
      (polled (pollTypeByte (ofLayer layer s)).1) (pollTypeByte (ofLayer layer s)).2 := by
    rw [pollTypeByte_ofLayer]
    refine .inl ⟨layer, s, _, rfl, rfl, (pollOne_tokens s).trans ?_⟩
    rcases (pollOne s).1 with _ | (_ | _) <;> rfl
  rcases w with s | _ | s
  · exact hlayer .plain s
  · exact .inr ⟨rfl, rfl, rfl⟩
  · exact hlayer .tls s

/-- Polls that only wait bring nothing. -/
theorem yields_of_waits {w w' : StreamWrap} (h : Waits pollTypeByte w w') : Yields w [] w' := by
  refine @Waits.preserves _ _ pollTypeByte (Yields w []) (fun t t' ht hs => ?_) w w' h (.refl w)
  have hyields := pollTypeByte_yields t
  rw [ht] at hyields
  exact hs.trans hyields

/-- The poll that ends the waiting brings its byte. -/
theorem yields_of_ready {w w₁ w' : StreamWrap} {result : Except ConveyError UInt8}
    (hwait : Waits pollTypeByte w w₁) (hready : pollTypeByte w₁ = (.ready result, w')) :
    Yields w (polled (.ready result)) w' := by
  have hyields := pollTypeByte_yields w₁
  rw [hready] at hyields
  exact (yields_of_waits hwait).trans hyields

end StreamWrap

namespace Conveyor

variable {sources : Side → Stream} {tls : Side → TlsProvider} {c : Conveyor}

/-- Polling a side keeps the account. -/
theorem Accounted.yields (h : Accounted sources tls c) {side : Side} {got : List UInt8}
    {w : StreamWrap} (hw : (c.wrap side).Yields got w) :
    Accounted sources tls ((c.setWrap side w).log (got.map (Event.took side w.layer))) := by
  rcases hw with ⟨layer, s, s', hwrap, rfl, htokens⟩ | ⟨rfl, hwrap, rfl⟩
  · rw [StreamWrap.layer_ofLayer]
    exact h.read hwrap htokens
  · rw [← hwrap, setWrap_wrap, List.map_nil, log_nil]
    exact h

/-- Waiting for one side and taking a byte of the other keeps the account. -/
theorem Accounted.race (h : Accounted sources tls c) {side : Side} {got : List UInt8}
    {w w' : StreamWrap} (hw : (c.wrap side).Yields got w)
    (hw' : (c.wrap side.other).Yields [] w') :
    Accounted sources tls (((c.setWrap side w).setWrap side.other w').log
      (got.map (Event.took side w.layer))) := by
  have hboth := @Accounted.yields _ _ _ (h.yields hw) side.other [] w' (by simpa using hw')
  simpa using hboth

/-- The race of the two type bytes keeps the account: the winner's byte is logged, and the loser has
lost nothing. -/
theorem selectTypeByte_keeps : KeepsAccount sources tls selectTypeByte := by
  intro c h
  rw [selectTypeByte]
  rcases hsel : select StreamWrap.pollTypeByte StreamWrap.pollTypeByte c.rounds c.backend c.frontend
    with ⟨_ | (result | result), b, f⟩
  -- neither side is ready
  · obtain ⟨hb, hf⟩ := select_pending hsel
    have hrace := @Accounted.race _ _ _ h .backend [] b f (StreamWrap.yields_of_waits hb)
      (StreamWrap.yields_of_waits hf)
    rwa [List.map_nil, log_nil] at hrace
  -- the backend wins, perhaps with an error instead of a byte
  · obtain ⟨w, hwait, hready, hf⟩ := select_left hsel
    have hrace := @Accounted.race _ _ _ h .backend _ b f
      (StreamWrap.yields_of_ready hwait hready) (StreamWrap.yields_of_waits hf)
    rcases result with e | byte
    · have hnone : StreamWrap.polled (.ready (.error e)) = [] := rfl
      rwa [hnone, List.map_nil, log_nil] at hrace
    · exact hrace
  -- the frontend wins, after the backend has been pending
  · obtain ⟨w, hb, hwait, hready⟩ := select_right hsel
    have hrace := @Accounted.race _ _ _ h .frontend _ f b
      (StreamWrap.yields_of_ready hwait hready) (StreamWrap.yields_of_waits hb)
    rcases result with e | byte
    · have hnone : StreamWrap.polled (.ready (.error e)) = [] := rfl
      rwa [hnone, List.map_nil, log_nil] at hrace
    · exact hrace

/-- Switching to TLS keeps the account. -/
theorem switchToTls_keeps (side : Side) {handshake : TlsProvider}
    {c : Conveyor} (h : Accounted sources tls c) (hhandshake : handshake = c.provider side) :
    Accounted sources tls (switchToTls side handshake c).2 := by
  rcases hwrap : c.wrap side with s | _ | s
  · rw [switchToTls_of_plain hwrap]
    have hbegun := h.handshakeBegun hwrap
    rcases hsession : handshake s with e | session
    · exact hbegun
    · have hset := @Accounted.setTls _ _ _ hbegun side s session (by simp)
        (by simpa [takenAt] using ((h side).plain s hwrap).2.1) (by simpa [← hhandshake])
      have hdone := @Accounted.log _ _ _ hset [.handshakeDone side] (fun _ _ => rfl) (by simp)
      simpa using hdone
  all_goals
    simp only [switchToTls, hwrap, StreamWrap.replacePlainWith]
    rw [← hwrap, setWrap_wrap]
    exact h

/-- Accepting TLS keeps the account. -/
theorem acceptTls_keeps : KeepsAccount sources tls acceptTls :=
  (write_keeps _ _).bind fun _ _ h => switchToTls_keeps .frontend h rfl

/-- Replying to a request for TLS keeps the account. -/
theorem replyToTls_keeps : KeepsAccount sources tls replyToTls := by
  refine (unwrapStream_keeps (((readExact_honest 1).map _).mapError _) _).bind fun byte => ?_
  split
  · exact acceptTls_keeps.bind fun _ => Proc.Keeps.pure _
  split
  · have hclient : KeepsAccount sources tls switchClientToTls := fun c h =>
      switchToTls_keeps .backend h rfl
    exact hclient.bind fun _ => acceptTls_keeps.bind fun _ => Proc.Keeps.pure _
  split
  · exact (readThrough_keeps _).bind fun _ => Proc.Keeps.pure _
  · exact Proc.Keeps.fail _

/-- A round of the main loop keeps the account. -/
theorem loopBody_keeps (s : State) : KeepsAccount sources tls (loopBody s) := by
  have hrace : KeepsAccount sources tls readTypeByteFromBoth := by
    refine selectTypeByte_keeps.bind fun ⟨side, byte⟩ => ?_
    dsimp only
    split
    · exact Proc.Keeps.pure _
    · exact Proc.Keeps.fail _
  refine hrace.bind fun ⟨side, typeByte⟩ => ?_
  dsimp only
  split
  · refine Proc.Keeps.map _ ((readThrough_keeps _).bind fun a => ?_)
    split
    · exact Proc.Keeps.pure _
    · exact Proc.Keeps.fail _
  · exact (readThrough_keeps _).bind fun _ => Proc.Keeps.pure _
  · exact Proc.Keeps.fail _

/-- Every step of a run keeps the account. -/
theorem step_keeps (ph : Phase) : KeepsAccount sources tls (step ph) := by
  cases ph with
  | initial =>
    refine (readThrough_keeps _).bind fun i => ?_
    split <;> exact Proc.Keeps.pure _
  | tlsReply =>
    refine replyToTls_keeps.bind fun accepted => ?_
    split <;> exact Proc.Keeps.pure _
  | initialInsideTls =>
    refine (readThrough_keeps _).bind fun i => ?_
    split
    · exact Proc.Keeps.pure _
    · exact Proc.Keeps.pure _
    · exact Proc.Keeps.fail _
  | looping s => exact (loopBody_keeps s).map _

/-- A new conveyor has consumed nothing. -/
theorem accounted_new (frontend backend : Stream) (frontendTlsServer backendTlsClient : TlsProvider)
    (overflowChecks : Bool) :
    Accounted (bySide frontend backend) (bySide frontendTlsServer backendTlsClient)
      (new frontend backend frontendTlsServer backendTlsClient overflowChecks) := by
  intro side
  cases side
  all_goals exact
    ⟨rfl, fun s hs => ⟨by cases hs; rfl, rfl, by simp [new]⟩, by simp [new], nofun, nofun⟩

/-- The trace of a whole run accounts for the streams. -/
theorem Accounted.go (h : Accounted sources tls c) (hfresh : c.Fresh) :
    Accounted sources tls (go c).2 :=
  (go_ends hfresh.at_initial).preserves step_keeps h

/-! ## What the account says about the streams -/

/-- What is consumed from a side: at first the beginning of its plain stream, and then, if the TLS
library was given the rest of it, the beginning of the stream that the library returned. -/
theorem Accounted.consumed (h : Accounted sources tls c) (side : Side) :
    takenAt side .plain c.trace <+: Script.tokens (sources side) ∧
      (takenAt side .tls c.trace = [] ∨ ∃ rest session, .handshakeBegun side rest ∈ c.trace ∧
        Script.tokens (sources side) = takenAt side .plain c.trace ++ Script.tokens rest ∧
        tls side rest = .ok session ∧ takenAt side .tls c.trace <+: Script.tokens session) := by
  rcases hwrap : c.wrap side with s | _ | s
  · obtain ⟨hplain, htls, -⟩ := (h side).plain s hwrap
    exact ⟨⟨_, hplain.symm⟩, .inl htls⟩
  · obtain ⟨htls, s, hs⟩ := (h side).handshake hwrap
    exact ⟨⟨_, ((h side).handed s hs).symm⟩, .inl htls⟩
  -- inside TLS the plain stream ends where it was handed over
  · obtain ⟨rest, session, hrest, hsession, htls⟩ := (h side).tls s hwrap
    have hplain := (h side).handed rest hrest
    exact ⟨⟨_, hplain.symm⟩, .inr ⟨rest, session, hrest, hplain, hsession, ⟨_, htls.symm⟩⟩⟩

end Conveyor

end Postgread
