import Mathlib.Data.List.Forall2
import Postgread.Foundations.Segments
import Postgread.Convey.Run

/-!
# Where the network cuts the streams

The network may deliver the bytes of a message one by one or many messages at once. `go_regrouped`
says that the proxy cannot tell: two runs whose streams bring the same bytes at the same polls, in
answers of any size, return the same and do the same.
-/

namespace Postgread

open Conveyor

/-! ## Regrouped streams -/

/-- Wraps at the same layer, around streams that differ in how their bytes are grouped. -/
inductive StreamWrap.Regroups : StreamWrap → StreamWrap → Prop where
  | plain {s t : Stream} (h : Regrouped s t) : Regroups (.plain s) (.plain t)
  | tlsHandshake : Regroups .tlsHandshake .tlsHandshake
  | tls {s t : Stream} (h : Regrouped s t) : Regroups (.tls s) (.tls t)

/-- The same event, but for the grouping of a stream that is handed to the TLS library. -/
inductive Event.Regroups : Event → Event → Prop where
  | same (e : Event) : Regroups e e
  | handshakeBegun (side : Side) {s t : Stream} (h : Regrouped s t) :
      Regroups (.handshakeBegun side s) (.handshakeBegun side t)

/-- A TLS library whose sessions do not depend on how the bytes of the plain stream are grouped. -/
def IgnoresGrouping (tls : TlsProvider) : Prop :=
  ∀ s t, Regrouped s t → (tls s).map Script.split = (tls t).map Script.split

namespace StreamWrap.Regroups

variable {w w' : StreamWrap}

/-- The streams under two such wraps bring the same bytes. -/
theorem stream (h : w.Regroups w') : Regrouped w.stream w'.stream := by
  cases h with
  | plain h => exact h
  | tlsHandshake => exact .refl _
  | tls h => exact h

/-- Both are plain, both are inside TLS, or a handshake has begun on both. -/
theorem layer (h : w.Regroups w') : w.layer = w'.layer := by
  cases h <;> rfl

/-- Wrapping two groupings of a stream at one layer. -/
theorem ofLayer (layer : Layer) {s t : Stream} (h : Regrouped s t) :
    (StreamWrap.ofLayer layer s).Regroups (.ofLayer layer t) := by
  cases layer
  · exact .plain h
  · exact .tls h

/-- A poll for a type byte answers the same over both groupings. -/
theorem pollTypeByte (h : w.Regroups w') : (pollTypeByte w').1 = (pollTypeByte w).1 ∧
    (StreamWrap.pollTypeByte w).2.Regroups (StreamWrap.pollTypeByte w').2 := by
  cases h with
  | plain h =>
    obtain ⟨hpoll, hrest⟩ := pollOne_regrouped h
    exact ⟨congrArg (Poll.map _) hpoll, .plain hrest⟩
  | tlsHandshake => exact ⟨rfl, .tlsHandshake⟩
  | tls h =>
    obtain ⟨hpoll, hrest⟩ := pollOne_regrouped h
    exact ⟨congrArg (Poll.map _) hpoll, .tls hrest⟩

end StreamWrap.Regroups

/-- A wrap is pending at most as often as its stream has answers, or for ever. -/
theorem settles_pollTypeByte :
    Settles StreamWrap.pollTypeByte fun w => w.stream.length := by
  have hpoll {s s' : Stream} (h : pollOne s = (.pending, s')) : s' = s ∨ s'.length < s.length := by
    rcases pollOne_pending h with ⟨rfl, rfl⟩ | rfl
    · exact .inl rfl
    · exact .inr (Nat.lt_succ_self _)
  have hmap {s s' : Stream} {wrap : Stream → StreamWrap}
      (h : ((pollOne s).1.map (Except.mapError ConveyError.ioError), wrap (pollOne s).2) =
        (.pending, wrap s')) (hwrap : wrap.Injective) : s' = s ∨ s'.length < s.length := by
    rcases hs : pollOne s with ⟨_ | a, rest⟩
    · rw [hs] at h
      obtain rfl := hwrap (congrArg Prod.snd h)
      exact hpoll hs
    · rw [hs] at h
      cases congrArg Prod.fst h
  intro w w' h
  rcases w with s | _ | s
  · obtain rfl : .plain (pollOne s).2 = w' := congrArg Prod.snd h
    rcases hmap h fun _ _ => StreamWrap.plain.inj with heq | hlt
    · exact .inl (by rw [heq])
    · exact .inr hlt
  · cases congrArg Prod.fst h
  · obtain rfl : .tls (pollOne s).2 = w' := congrArg Prod.snd h
    rcases hmap h fun _ _ => StreamWrap.tls.inj with heq | hlt
    · exact .inl (by rw [heq])
    · exact .inr hlt

namespace Conveyor

/-- Conveyors at the same point of runs whose streams are grouped in two ways. -/
structure Regroups (c d : Conveyor) : Prop where
  wrap : ∀ side, (c.wrap side).Regroups (d.wrap side)
  provider_eq : ∀ side, d.provider side = c.provider side
  ignoresGrouping : ∀ side, IgnoresGrouping (c.provider side)
  overflowChecks_eq : d.overflowChecks = c.overflowChecks
  trace : List.Forall₂ Event.Regroups c.trace d.trace

namespace Regroups

variable {c d : Conveyor}

/-- Logging events that differ only in the streams handed over. -/
theorem logWith (h : Regroups c d) {events events' : List Event}
    (hevents : List.Forall₂ Event.Regroups events events') :
    Regroups (c.log events) (d.log events') where
  wrap side := by rw [wrap_log, wrap_log]; exact h.wrap side
  provider_eq side := by rw [provider_log, provider_log]; exact h.provider_eq side
  ignoresGrouping side := by rw [provider_log]; exact h.ignoresGrouping side
  overflowChecks_eq := h.overflowChecks_eq
  trace := List.rel_append h.trace hevents

/-- Logging the same events on both. -/
theorem log (h : Regroups c d) (events : List Event) : Regroups (c.log events) (d.log events) :=
  h.logWith (List.forall₂_same.mpr fun e _ => .same e)

/-- Replacing the streams of one side by two groupings of another stream. -/
theorem setWrap (h : Regroups c d) (side : Side) {w w' : StreamWrap} (hw : w.Regroups w') :
    Regroups (c.setWrap side w) (d.setWrap side w') where
  wrap side' := by
    obtain rfl | rfl := side.eq_or_eq_other side'
    · rw [wrap_setWrap_self, wrap_setWrap_self]
      exact hw
    · rw [wrap_setWrap_other, wrap_setWrap_other]
      exact h.wrap _
  provider_eq side' := by rw [provider_setWrap, provider_setWrap]; exact h.provider_eq side'
  ignoresGrouping side' := by rw [provider_setWrap]; exact h.ignoresGrouping side'
  overflowChecks_eq := by
    rw [overflowChecks_setWrap, overflowChecks_setWrap]
    exact h.overflowChecks_eq
  trace := by rw [trace_setWrap, trace_setWrap]; exact h.trace

/-- The streams hold the same number of bytes, however these are grouped. -/
theorem bytesLeft_eq (h : Regroups c d) : d.bytesLeft = c.bytesLeft := by
  have htokens (side : Side) :
      (d.wrap side).stream.tokens = (c.wrap side).stream.tokens := (h.wrap side).stream.tokens_eq.symm
  rw [Conveyor.bytesLeft_eq d .backend, Conveyor.bytesLeft_eq c .backend, htokens, htokens]

end Regroups

/-! ## The operations -/

/-- `unwrap_stream!` around a reading that the grouping does not affect. -/
theorem unwrapStream_regroups {α : Type} (side : Side) {read : Reading ConveyError α}
    (hread : read.Respects Reader.Regroups) : (unwrapStream side read).Respects Regroups := by
  intro c d h
  have hat (layer : Layer) {s t : Stream} (hst : Regrouped s t) :
      (readAt side layer t read d).1 = (readAt side layer s read c).1 ∧
        Regroups (readAt side layer s read c).2 (readAt side layer t read d).2 := by
    -- the reading starts from the same bytes at one layer, and takes the same
    obtain ⟨hresult, hreader⟩ := hread ⟨s, []⟩ ⟨t, []⟩ ⟨hst, rfl⟩
    refine ⟨hresult, ?_⟩
    simp only [readAt, ← hreader.taken]
    exact (h.setWrap side (.ofLayer layer hreader.script)).log _
  have hwrap := h.wrap side
  simp only [unwrapStream]
  generalize c.wrap side = w, d.wrap side = w' at hwrap
  cases hwrap with
  | plain hst => exact hat .plain hst
  | tlsHandshake => exact ⟨rfl, h⟩
  | tls hst => exact hat .tls hst

/-- A write looks at the layer of its side only. -/
theorem write_regroups (side : Side) (bytes : List UInt8) :
    (write side bytes).Respects Regroups := by
  intro c d h
  have hwrap := h.wrap side
  simp only [write]
  generalize c.wrap side = w, d.wrap side = w' at hwrap
  cases hwrap with
  | plain hst => exact ⟨rfl, h.log _⟩
  | tlsHandshake => exact ⟨rfl, h⟩
  | tls hst => exact ⟨rfl, h.log _⟩

/-- `read_msg_mapping_err` waits for whole fields, so the answers they come in do not show. -/
theorem readMsgMappingErr_regroups (Msg : Type) [MsgDecode Msg] (overflowChecks : Bool) :
    (readMsgMappingErr Msg overflowChecks).Respects Reader.Regroups := by
  have hmsg : (readMsg Msg overflowChecks).Respects Reader.Regroups := by
    refine ((readExact_regroups 4).map _ |>.mapError _).bind fun specifiedLen => ?_
    split
    · exact .fail _
    · split
      · exact .fail _
      · exact ((readExact_regroups _).mapError _).bind fun _ => .pure _
  refine (hmsg.mapError _).bind fun data => ?_
  split
  · exact .pure _
  · exact .fail _

/-- Reading a message, calling back and passing it on. -/
theorem readThrough_regroups (t : MsgType) : (readThrough t).Respects Regroups := by
  have hread : (read t).Respects Regroups := by
    intro c d h
    rw [read, read, h.overflowChecks_eq]
    exact unwrapStream_regroups t.side (readMsgMappingErr_regroups _ _) c d h
  have hcallback (msg : Message) : (callback msg).Respects Regroups := fun _ _ h => ⟨rfl, h.log _⟩
  exact hread.bind fun _ => (hcallback _).bind fun _ => (write_regroups _ _).bind fun _ => .pure _

/-- `read_u8` from the backend. -/
theorem readBackendTypeByte_regroups : readBackendTypeByte.Respects Regroups :=
  unwrapStream_regroups .backend (((readExact_regroups 1).map _).mapError _)

/-- The race takes more rounds than either of two groupings needs, and ends as it does in both. -/
theorem select_regroups {c d : Conveyor} (h : Regroups c d) : ∃ poll b f b' f',
    select StreamWrap.pollTypeByte StreamWrap.pollTypeByte c.rounds c.backend c.frontend =
      (poll, b, f) ∧
    select StreamWrap.pollTypeByte StreamWrap.pollTypeByte d.rounds d.backend d.frontend =
      (poll, b', f') ∧
    b.Regroups b' ∧ f.Regroups f' := by
  -- rounds beyond the ones it needs change nothing, so both races may run the sum of their rounds
  have hmore (c : Conveyor) (n : ℕ) : select StreamWrap.pollTypeByte StreamWrap.pollTypeByte
      c.rounds c.backend c.frontend = select StreamWrap.pollTypeByte StreamWrap.pollTypeByte
        (c.rounds + n) c.backend c.frontend :=
    select_eq_of_settles settles_pollTypeByte settles_pollTypeByte (Nat.lt_succ_self _)
      (Nat.lt_of_lt_of_le (Nat.lt_succ_self _) (Nat.le_add_right _ _))
  obtain ⟨hpoll, hbackend, hfrontend⟩ := select_respects
    (fun _ _ => StreamWrap.Regroups.pollTypeByte) (fun _ _ => StreamWrap.Regroups.pollTypeByte)
    (c.rounds + d.rounds) (h.wrap .backend) (h.wrap .frontend)
  refine ⟨_, _, _, _, _, hmore c d.rounds, ?_, hbackend, hfrontend⟩
  rw [hmore d c.rounds, Nat.add_comm d.rounds]
  exact Prod.ext hpoll rfl

/-- The whole race for the next type byte. -/
theorem selectTypeByte_regroups : selectTypeByte.Respects Regroups := by
  intro c d h
  obtain ⟨poll, b, f, b', f', hc, hd, hb, hf⟩ := select_regroups h
  have htook {c d : Conveyor} (h : Regroups c d) (side : Side) {layer layer' : Layer}
      (hlayer : layer = layer') (result : Except ConveyError UInt8) :
      (tookTypeByte side layer' result d).1 = (tookTypeByte side layer result c).1 ∧
        Regroups (tookTypeByte side layer result c).2 (tookTypeByte side layer' result d).2 := by
    subst hlayer
    rcases result with e | byte
    · exact ⟨rfl, h⟩
    · exact ⟨rfl, h.log _⟩
  have hwraps : Regroups { c with backend := b, frontend := f }
      { d with backend := b', frontend := f' } := (h.setWrap .backend hb).setWrap .frontend hf
  simp only [selectTypeByte, hc, hd]
  rcases poll with _ | (result | result)
  · exact ⟨rfl, hwraps⟩
  · exact htook hwraps .backend hb.layer result
  · exact htook hwraps .frontend hf.layer result

/-- The TLS library is handed two groupings of the rest of a stream. -/
theorem switchToTls_regroups {side : Side} {c d : Conveyor} (h : Regroups c d) :
    (switchToTls side (d.provider side) d).1 = (switchToTls side (c.provider side) c).1 ∧
      Regroups (switchToTls side (c.provider side) c).2 (switchToTls side (d.provider side) d).2 := by
  have hwrap := h.wrap side
  generalize hc : c.wrap side = w, hd : d.wrap side = w' at hwrap
  cases hwrap with
  | @plain s t hst =>
    rw [switchToTls_of_plain hc, switchToTls_of_plain hd, h.provider_eq]
    -- sessions that differ in grouping alone, or a failure on both sides
    have hsession := h.ignoresGrouping side s t hst
    have hbegun : Event.Regroups (.handshakeBegun side s) (.handshakeBegun side t) :=
      .handshakeBegun side hst
    generalize c.provider side s = session, c.provider side t = session' at hsession
    rcases session with e | s'
    · rcases session' with e' | t'
      · exact ⟨rfl, (h.setWrap side .tlsHandshake).logWith (.cons hbegun .nil)⟩
      · cases hsession
    · rcases session' with e' | t'
      · cases hsession
      · exact ⟨rfl, (h.setWrap side (.tls (Except.ok.inj hsession))).logWith
          (.cons hbegun (.cons (.same _) .nil))⟩
  | tlsHandshake =>
    simp only [switchToTls, hc, hd, StreamWrap.replacePlainWith, true_and]
    exact h.setWrap side .tlsHandshake
  | tls hst =>
    simp only [switchToTls, hc, hd, StreamWrap.replacePlainWith, true_and]
    exact h.setWrap side (.tls hst)

/-- Answering `S` and taking the frontend into TLS. -/
theorem acceptTls_regroups : acceptTls.Respects Regroups :=
  (write_regroups _ _).bind fun _ _ _ h => @switchToTls_regroups .frontend _ _ h

/-- The backend's answer to a request for TLS. -/
theorem replyToTls_regroups : replyToTls.Respects Regroups := by
  refine readBackendTypeByte_regroups.bind fun byte => ?_
  split
  · exact acceptTls_regroups.bind fun _ => .pure _
  split
  · have hclient : switchClientToTls.Respects Regroups :=
      fun _ _ h => @switchToTls_regroups .backend _ _ h
    exact hclient.bind fun _ => acceptTls_regroups.bind fun _ => .pure _
  split
  · exact (readThrough_regroups _).bind fun _ => .pure _
  · exact .fail _

/-! ## The whole conversation -/

/-- One round of the main loop. -/
theorem loopBody_regroups (s : State) : (loopBody s).Respects Regroups := by
  have hrace : readTypeByteFromBoth.Respects Regroups := by
    refine selectTypeByte_regroups.bind fun (side, byte) => ?_
    dsimp only
    split
    · exact .pure _
    · exact .fail _
  refine hrace.bind fun (side, typeByte) => ?_
  dsimp only
  split
  · refine .map _ ((readThrough_regroups _).bind fun authentication => ?_)
    split
    · exact .pure _
    · exact .fail _
  · exact (readThrough_regroups _).bind fun _ => .pure _
  · exact .fail _

/-- The fuel of the main loop is the number of bytes, which does not depend on their grouping. -/
theorem loop_regroups (s : State) : (loop s).Respects Regroups := by
  intro c d h
  rw [loop, loop, h.bytesLeft_eq]
  exact respects_iterate loopBody_regroups _ s c d h

/-- The whole of `go`: start-up, main loop and request to cancel. -/
theorem go_regroups : go.Respects Regroups := by
  refine (readThrough_regroups _).bind fun i => ?_
  split
  · exact loop_regroups _
  · exact .pure _
  refine replyToTls_regroups.bind fun accepted => ?_
  split
  · refine (readThrough_regroups _).bind fun i => ?_
    split
    · exact loop_regroups _
    · exact .pure _
    · exact .fail _
  · exact .pure _

end Conveyor

/-- How the bytes of the streams are grouped does not matter. If two pairs of streams bring the same
bytes at the same polls, in answers of any size, the runs return the same, take, report and write the
same in the same order, and leave streams that differ in the grouping alone. -/
theorem go_regrouped {frontend frontend' backend backend' : Stream}
    (hfrontend : Regrouped frontend frontend') (hbackend : Regrouped backend backend')
    {frontendTlsServer backendTlsClient : TlsProvider} (hserver : IgnoresGrouping frontendTlsServer)
    (hclient : IgnoresGrouping backendTlsClient) (overflowChecks : Bool) :
    let run := go (new frontend backend frontendTlsServer backendTlsClient overflowChecks)
    let run' := go (new frontend' backend' frontendTlsServer backendTlsClient overflowChecks)
    run'.1 = run.1 ∧ List.Forall₂ Event.Regroups run.2.trace run'.2.trace ∧
      ∀ side, (run.2.wrap side).Regroups (run'.2.wrap side) := by
  intro run run'
  have hnew : Regroups (new frontend backend frontendTlsServer backendTlsClient overflowChecks)
      (new frontend' backend' frontendTlsServer backendTlsClient overflowChecks) := by
    refine ⟨fun side => ?_, fun side => ?_, fun side => ?_, rfl, .nil⟩
    · cases side
      · exact .plain hbackend
      · exact .plain hfrontend
    · cases side <;> rfl
    · cases side
      · exact hclient
      · exact hserver
  obtain ⟨hresult, hleft⟩ := go_regroups _ _ hnew
  exact ⟨hresult, hleft.trace, hleft.wrap⟩

/-- A request to cancel, at once and in four parts. -/
theorem go_regrouped_cancel :
    let run (frontend : Stream) := go (new frontend [] .ok .ok true)
    let whole := run [.ready 0 [0, 0, 16, 4, 210, 22, 46, 0, 0, 0, 1, 0, 0, 0, 2]]
    let parts := run [.ready 0 [0], .ready 0 [16, 4], .ready 210 [22, 46, 0, 0, 0], .ready 1
      [0, 0, 0, 2]]
    whole.1 = .ok ⟨⟩ ∧ parts.1 = whole.1 ∧
      List.Forall₂ Event.Regroups whole.2.trace parts.2.trace := by
  have hignores : IgnoresGrouping .ok := fun _ _ h => congrArg Except.ok h
  intro run whole parts
  obtain ⟨hresult, htrace, -⟩ := @go_regrouped
    [.ready 0 [0, 0, 16, 4, 210, 22, 46, 0, 0, 0, 1, 0, 0, 0, 2]]
    [.ready 0 [0], .ready 0 [16, 4], .ready 210 [22, 46, 0, 0, 0], .ready 1 [0, 0, 0, 2]]
    [] [] rfl rfl _ _ hignores hignores true
  exact ⟨by decide +kernel, hresult, htrace⟩

end Postgread
