import Postgread.Foundations.Insertion
import Postgread.Convey.History
import Postgread.Convey.Past

/-!
# Notices

The backend may send a notice at any time, and the main loop conveys it without changing its state.
`go_notices` compares a run with one whose main loop reads notices in addition, inserted anywhere
before the last message that is read.
-/

namespace Postgread

open Body Conveyor Event

/-- A notice of the backend in its frame. -/
def Packet.IsNotice (p : Packet) : Prop := p.type = .backend .noticeResponse

/-- The kind of a notice is that of all notices. -/
theorem Packet.isNotice_kind {p : Packet} (hp : p.IsNotice) : p.kind.isNotice := by
  have htype := p.kind_type
  rw [hp] at htype
  generalize p.kind = k at htype
  rcases k with t | t | t
  · cases htype
  · obtain rfl : t = .noticeResponse := by simpa [Kind.type] using htype
    rfl
  · cases htype

/-- Inserted notices do not change the state that a word leads to. -/
theorem advanceAll_of_inserts {ps ps' : List Packet} (h : Inserts Packet.IsNotice ps ps')
    (s : State) : advanceAll s (ps'.map Packet.kind) = advanceAll s (ps.map Packet.kind) := by
  have hkinds : Inserts (fun k : Kind => k.isNotice) (ps.map Packet.kind) (ps'.map Packet.kind) :=
    h.map fun _ => Packet.isNotice_kind
  exact hkinds.foldlM_eq advance_of_isNotice s

/-- Notices are not written to the backend. -/
theorem written_backend_of_inserts {ps ps' : List Packet} (h : Inserts Packet.IsNotice ps ps')
    (layers layers' : Side → Layer) :
    written .backend (ps'.flatMap fun p => p.events layers') =
      written .backend (ps.flatMap fun p => p.events layers) := by
  have hwritten (qs : List Packet) (layers : Side → Layer) :
      written .backend (qs.flatMap fun p => p.events layers) =
        qs.flatMap fun p => if p.side.other = .backend then p.bytes else [] := by
    rw [written, writes_flatMap_events, List.flatMap_map]
  rw [hwritten, hwritten]
  refine h.flatMap_eq fun p hp => if_neg ?_
  rw [Packet.side, show p.type = .backend .noticeResponse from hp]
  decide

namespace Conveyor

variable {c c' c₀ : Conveyor} {s s' : State}

/-- After these packets the main loop is in this state. -/
def Stands (c : Conveyor) (s : State) (ps : List Packet) (s' : State) (c' : Conveyor) : Prop :=
  Reaches step (.looping s, c) (.looping s', c') ∧
    callbacks c'.trace = callbacks c.trace ++ ps.map Packet.message

/-- After the packets `ps` the main loop reads the packet `p` in the state `s₁`, and goes on in the
state `s₂`. -/
def ReadsIn (c : Conveyor) (s : State) (ps : List Packet) (p : Packet) (s₁ s₂ : State) : Prop :=
  ∃ c₁ c₂, c.Stands s ps s₁ c₁ ∧ StepsTo step (.looping s₁, c₁) (.looping s₂, c₂) ∧
    callbacks c₂.trace = callbacks c₁.trace ++ [p.message]

/-- What arrives and is read by the automaton leads the main loop to its state. -/
theorem stands_of_arrives (h : c₀.Fresh) (hreach : Reaches step (.initial, c₀) (.looping s, c))
    {ps : List Packet} (harrives : Arrives c ps c')
    (hadvance : advanceAll s (ps.map Packet.kind) = some s') : ∃ c₁, c.Stands s ps s' c₁ := by
  obtain ⟨c₁, hrest, hcallbacks, -⟩ := conveyed_of_arrives h hreach harrives hadvance
  exact ⟨c₁, hrest, hcallbacks⟩

/-- Every packet that arrives is read in the state that the packets before it lead to. -/
theorem readsIn_of_arrives (h : c₀.Fresh) (hreach : Reaches step (.initial, c₀) (.looping s, c))
    {u v : List Packet} {p : Packet} (harrives : Arrives c (u ++ p :: v) c') {s₁ s₂ : State}
    (hu : advanceAll s (u.map Packet.kind) = some s₁) (hp : advance s₁ p.kind = some s₂) :
    c.ReadsIn s u p s₁ s₂ := by
  obtain ⟨σ, -, -, -, -, -, hopen, -⟩ := session_of_reaches h hreach
  obtain ⟨c₁, harrives₁, hrest⟩ := arrives_append harrives
  cases hrest with
  | @cons _ c₂ _ _ _ ho _ =>
    have hreach₁ := reaches_of_arrives hopen harrives₁ hu
    have hopen₁ := (arrives_streams hopen harrives₁).1.log (u.flatMap fun p => p.events σ.layers)
    refine ⟨_, _, ⟨hreach₁, ?_⟩, (stepsTo_looping_iff hopen₁).mpr ⟨p, _, ho.log _, hp, rfl⟩, ?_⟩
    · rw [trace_log, callbacks_append, callbacks_flatMap_events, harrives₁.trace_eq]
    · rw [trace_log, callbacks_append, p.callbacks_events, trace_log, trace_log, ho.trace_eq]

end Conveyor

/-- A run whose main loop reads notices in addition, before the last message that is read: every
other message is read in the same state, the result is the same, the backend gets the same bytes,
and the frontend gets the frames of the notices in addition, at their places, as the callback gets
their messages. -/
theorem go_notices (frontend backend frontend' backend' : Stream)
    (frontendTlsServer backendTlsClient frontendTlsServer' backendTlsClient' : TlsProvider)
    (overflowChecks : Bool) :
    let c₀ := new frontend backend frontendTlsServer backendTlsClient overflowChecks
    let d₀ := new frontend' backend' frontendTlsServer' backendTlsClient' overflowChecks
    ∀ c d c₁ d₁ ps ps' s,
      Reaches step (.initial, c₀) (.looping .gotStartup, c) →
      Reaches step (.initial, d₀) (.looping .gotStartup, d) →
      callbacks d.trace = callbacks c.trace → Event.writes d.trace = Event.writes c.trace →
      Arrives c ps c₁ → advanceAll .gotStartup (ps.map Packet.kind) = some s →
      Inserts Packet.IsNotice ps ps' → Arrives d ps' d₁ →
      (∀ side, d₁.wrap side = c₁.wrap side) →
      (go d₀).1 = (go c₀).1 ∧
      (∀ u p v, ps = u ++ p :: v → ∃ u' v', ps' = u' ++ p :: v' ∧
        Inserts Packet.IsNotice u u' ∧ Inserts Packet.IsNotice v v' ∧
        ∃ s₁ s₂, c.ReadsIn .gotStartup u p s₁ s₂ ∧ d.ReadsIn .gotStartup u' p s₁ s₂) ∧
      (∃ c₂ d₂, c.Stands .gotStartup ps s c₂ ∧ d.Stands .gotStartup ps' s d₂) ∧
      (∃ msgs, callbacks (go c₀).2.trace =
          callbacks c.trace ++ ps.map Packet.message ++ msgs ∧
        callbacks (go d₀).2.trace = callbacks c.trace ++ ps'.map Packet.message ++ msgs) ∧
      (∃ ws, Event.writes (go c₀).2.trace =
          Event.writes c.trace ++ ps.map (fun p => (p.side.other, p.bytes)) ++ ws ∧
        Event.writes (go d₀).2.trace =
          Event.writes c.trace ++ ps'.map (fun p => (p.side.other, p.bytes)) ++ ws) ∧
      written .backend (go d₀).2.trace = written .backend (go c₀).2.trace := by
  intro c₀ d₀ c d c₁ d₁ ps ps' s hc hd hcallbacks hwrites hps hadvance hinserts hps' hwrap
  have hfresh : c₀.Fresh := fresh_new _ _ _ _ _
  have hfresh' : d₀.Fresh := fresh_new _ _ _ _ _
  obtain ⟨σ, -, -, -, -, -, hopen, -⟩ := session_of_reaches hfresh hc
  obtain ⟨σ', -, -, -, -, -, hopen', -⟩ := session_of_reaches hfresh' hd
  have hadvance' := (advanceAll_of_inserts hinserts .gotStartup).trans hadvance
  have hreach := hc.trans (reaches_of_arrives hopen hps hadvance)
  have hreach' := hd.trans (reaches_of_arrives hopen' hps' hadvance')
  have hchecks := ((fixed_overflowChecks overflowChecks).reaches hreach' rfl).trans
    ((fixed_overflowChecks overflowChecks).reaches hreach rfl).symm
  -- the rests of the two runs differ in nothing but their past
  have hrest := @Alike.of_wrap_eq (c₁.log (ps.flatMap fun p => p.events σ.layers))
    (d₁.log (ps'.flatMap fun p => p.events σ'.layers))
    (fun side => by rw [wrap_log, wrap_log, hwrap]) hchecks
  obtain ⟨hresult, halike⟩ := loop_forgetful s _ _ _ _ hrest
  obtain ⟨tail, htrace, htrace'⟩ := halike.trace_eq
  rw [← go_of_reaches hfresh hreach, trace_log, hps.trace_eq] at htrace
  rw [← go_of_reaches hfresh' hreach', trace_log, hps'.trace_eq] at htrace'
  rw [← go_of_reaches hfresh hreach, ← go_of_reaches hfresh' hreach'] at hresult
  refine ⟨hresult, fun u p v hsplit => ?_, ?_, ⟨callbacks tail, ?_, ?_⟩,
    ⟨Event.writes tail, ?_, ?_⟩, ?_⟩
  · subst hsplit
    obtain ⟨u', v', rfl, hu, hv⟩ := hinserts.exists_split
    rw [List.map_append, advanceAll_append] at hadvance
    obtain ⟨s₁, hs₁, hadvance⟩ := Option.bind_eq_some_iff.mp hadvance
    rw [List.map_cons, advanceAll_cons] at hadvance
    obtain ⟨s₂, hs₂, -⟩ := Option.bind_eq_some_iff.mp hadvance
    exact ⟨u', v', rfl, hu, hv, s₁, s₂, readsIn_of_arrives hfresh hc hps hs₁ hs₂,
      readsIn_of_arrives hfresh' hd hps' ((advanceAll_of_inserts hu _).trans hs₁) hs₂⟩
  · obtain ⟨c₂, hc₂⟩ := stands_of_arrives hfresh hc hps hadvance
    obtain ⟨d₂, hd₂⟩ := stands_of_arrives hfresh' hd hps' hadvance'
    exact ⟨c₂, d₂, hc₂, hd₂⟩
  · rw [htrace, callbacks_append, callbacks_append, callbacks_flatMap_events]
  · rw [htrace', callbacks_append, callbacks_append, callbacks_flatMap_events, hcallbacks]
  · rw [htrace, writes_append, writes_append, writes_flatMap_events]
  · rw [htrace', writes_append, writes_append, writes_flatMap_events, hwrites]
  · have hwritten : written .backend d.trace = written .backend c.trace := by
      rw [written, written, hwrites]
    rw [htrace, htrace', written_append, written_append, written_append, written_append, hwritten,
      written_backend_of_inserts hinserts]

/-- A notice without fields. -/
def Packet.emptyNotice : Packet where
  type := .backend .noticeResponse
  body := [0]
  msg := ⟨_⟩
  fits := by decide
  decodes := rfl

/-- A backend that fails after the authentication, with a notice before its error or without. -/
theorem go_notices_before_error :
    let start : Stream := [.ready 0 [0, 0, 9, 0, 3, 0, 0, 0]]
    let authenticationOk : ReadPoll UInt8 IoError := .ready 82 [0, 0, 0, 8, 0, 0, 0, 0]
    let notice : ReadPoll UInt8 IoError := .ready 78 [0, 0, 0, 5, 0]
    let error : ReadPoll UInt8 IoError := .ready 69 [0, 0, 0, 5, 0]
    let c₀ := new start [authenticationOk, error] .ok .ok true
    let d₀ := new start [authenticationOk, notice, error] .ok .ok true
    (go d₀).1 = (go c₀).1 := by
  intro start authenticationOk notice error c₀ d₀
  have hc : Reaches step (.initial, c₀) (.looping .gotStartup, (step .initial c₀).2) :=
    .single (stepsTo_of_fst rfl)
  have hd : Reaches step (.initial, d₀) (.looping .gotStartup, (step .initial d₀).2) :=
    .single (stepsTo_of_fst rfl)
  have hinserts : Inserts Packet.IsNotice [Packet.authenticationOk]
      [Packet.authenticationOk, Packet.emptyNotice] := .keep _ (.insert rfl .nil)
  -- both runs leave the error and have conveyed the start-up packet
  let rest (backend : Stream) (c : Conveyor) : Conveyor :=
    ⟨.plain [], .plain backend, .ok, .ok, true, c.trace⟩
  have hps : Arrives (step .initial c₀).2 [Packet.authenticationOk]
      (rest [error] (step .initial c₀).2) :=
    .cons ⟨.authentication, _, _, rfl, rfl, rfl, rfl⟩ (.nil _)
  have hps' : Arrives (step .initial d₀).2 [Packet.authenticationOk, Packet.emptyNotice]
      (rest [error] (step .initial d₀).2) := by
    refine @Arrives.cons _ (rest [notice, error] (step .initial d₀).2) _ _ _ ?_ (.cons ?_ (.nil _))
    · exact ⟨.authentication, _, _, rfl, rfl, rfl, rfl⟩
    · exact ⟨.noticeResponse, _, _, rfl, rfl, rfl, rfl⟩
  exact (go_notices _ _ _ _ .ok .ok .ok .ok true _ _ _ _ _ _ .authenticated hc hd rfl rfl hps rfl
    hinserts hps' fun _ => rfl).1

end Postgread
