import Postgread.Foundations.Segments
import Postgread.Convey.Liveness

/-!
# The priority of the backend

The race of the two type bytes polls the backend first. So a message of the frontend is read only
where the backend has nothing to say, and a backend that never pauses keeps the frontend waiting for
as long as it talks (`go_backend_first`). One pause is enough for a frontend that is ready.
-/

namespace Postgread

open Body Conveyor

namespace Conveyor

variable {c c' c₀ : Conveyor} {layers : Side → Layer} {s s' : State} {p : Packet}

/-- The frontend only wins the race after the backend has been pending. -/
theorem pending_of_selectTypeByte (h : c.Open layers) {byte : UInt8}
    (hselect : selectTypeByte c = (.ok (.frontend, byte), c')) :
    ∃ b, pollOne (c.wrap .backend).stream = (.pending, b) := by
  obtain ⟨b, hb⟩ := h .backend
  rw [selectTypeByte] at hselect
  rcases hsel : select StreamWrap.pollTypeByte StreamWrap.pollTypeByte c.rounds c.backend c.frontend
    with ⟨_ | (result | result), w, w'⟩
  · rw [hsel] at hselect
    cases hselect
  · rw [hsel] at hselect
    cases result <;> cases hselect
  -- in each round the frontend is polled after the backend
  · obtain ⟨w₁, hpending⟩ := pending_of_select_right hsel
    rw [show c.backend = _ from hb, StreamWrap.pollTypeByte_ofLayer] at hpending
    rw [hb, StreamWrap.stream_ofLayer]
    rcases hone : pollOne b with ⟨_ | r, b'⟩
    · exact ⟨b', rfl⟩
    · rw [hone] at hpending
      cases congrArg Prod.fst hpending

/-- A message of the frontend is only offered after the backend has been pending. -/
theorem pending_of_offers (h : c.Open layers) (ho : Offers c p c') (hp : p.side = .frontend) :
    ∃ b, pollOne (c.wrap .backend).stream = (.pending, b) := by
  obtain ⟨typeByte, d, s, -, hselect, -⟩ := (offers_iff h).mp ho
  rw [hp] at hselect
  exact pending_of_selectTypeByte h hselect

/-- A message of the frontend that is there when the backend pauses is offered. -/
theorem exists_offers_of_pending (h : c.Open layers) {typeByte : TypeByte} {b f : Stream}
    (hp : p.side = .frontend) (htype : p.type.typeByteOpt = some typeByte)
    (hb : pollOne (c.wrap .backend).stream = (.pending, b))
    (hready : ∀ f, (c.wrap .frontend).stream ≠ .pending :: f)
    (hbrings : Brings (c.wrap .frontend).stream p.bytes f) : ∃ c', Offers c p c' := by
  obtain ⟨b', hb'⟩ := h .backend
  obtain ⟨f', hf'⟩ := h .frontend
  rw [Packet.bytes, htype, frameBytes_some] at hbrings
  obtain ⟨f₁, hone, hrest⟩ := pollOne_of_brings hready hbrings
  rw [hb', StreamWrap.stream_ofLayer] at hb
  rw [hf', StreamWrap.stream_ofLayer] at hone
  have hselect := @selectTypeByte_of_frontend c typeByte.toU8 (.ofLayer (layers .backend) b)
    (.ofLayer (layers .frontend) f₁)
    (by rw [show c.backend = _ from hb', StreamWrap.pollTypeByte_ofLayer, hb]; rfl)
    (by rw [show c.frontend = _ from hf', StreamWrap.pollTypeByte_ofLayer, hone]; rfl)
  refine ⟨_, typeByte, _, f, htype, hp ▸ hselect, ?_, rfl⟩
  rw [hp, wrap_log, wrap_setWrap_self, StreamWrap.stream_ofLayer]
  exact hrest

/-! ## A backend that never pauses -/

/-- Since some point of a run the backend has not paused, and all that the frontend has said came
after its last answer. -/
structure BackendFirst (past : List Kind) (c : Conveyor) : Prop where
  restless : (c.wrap .backend).stream.Restless
  history_eq : ∃ bs fs, c.history = past ++ bs ++ fs ∧ (∀ k ∈ bs, k.side = .backend) ∧
    (∀ k ∈ fs, k.side = .frontend) ∧ (fs ≠ [] → (c.wrap .backend).stream = [])

/-- At the point from which it is watched the backend has not been late yet. -/
theorem backendFirst_of_restless (h : (c.wrap .backend).stream.Restless) :
    BackendFirst c.history c :=
  ⟨h, [], [], by simp, by simp, by simp, by simp⟩

/-- A backend that never pauses has come to its end when the frontend is read. -/
theorem stream_eq_nil_of_offers (hopen : c.Open layers) (h : (c.wrap .backend).stream.Restless)
    (ho : Offers c p c') (hp : p.side = .frontend) : (c.wrap .backend).stream = [] := by
  obtain ⟨b, hb⟩ := pending_of_offers hopen ho hp
  exact (h.eq_nil hb).1

/-- A step keeps the backend first. -/
theorem backendFirst_of_stepsTo (h : c₀.Fresh)
    (hreach : Reaches step (.initial, c₀) (.looping s, c)) {past : List Kind}
    (hfirst : BackendFirst past c) (hstep : StepsTo step (.looping s, c) (.looping s', c')) :
    BackendFirst past c' := by
  obtain ⟨σ, -, -, -, -, -, hopen, -⟩ := session_of_reaches h hreach
  obtain ⟨p, c₁, ho, -, rfl⟩ := (stepsTo_looping_iff hopen).mp hstep
  obtain ⟨bs, fs, hhistory, hbs, hfs, hnil⟩ := hfirst.history_eq
  obtain ⟨-, -, hbrings, hwaits⟩ := ho.streams hopen
  have hlog : (c₁.log (p.events σ.layers)).history = past ++ bs ++ fs ++ [p.kind] := by
    rw [history_of_offers h hreach ho, hhistory]
  rcases hside : p.side with _ | _
  · -- the backend can only talk if the frontend has not talked yet
    rw [hside] at hbrings
    obtain rfl : fs = [] := by
      by_contra hne
      rw [hnil hne] at hbrings
      exact p.bytes_ne_nil (List.append_eq_nil_iff.mp hbrings.tokens_eq.symm).1
    refine ⟨by rw [wrap_log]; exact hfirst.restless.brings hbrings, bs ++ [p.kind], [], ?_, ?_, ?_,
      ?_⟩
    · rw [hlog, List.append_nil, List.append_nil, List.append_assoc]
    · intro k hk
      rcases List.mem_append.mp hk with hk | hk
      · exact hbs k hk
      · rw [List.mem_singleton.mp hk, p.kind_side, hside]
    · exact fun k hk => absurd hk List.not_mem_nil
    · exact fun hne => absurd rfl hne
  · -- the backend has come to its end, and stays there
    rw [hside] at hwaits
    have hend : (c₁.wrap .backend).stream = [] :=
      (hfirst.restless.waits hwaits).trans (stream_eq_nil_of_offers hopen hfirst.restless ho hside)
    refine ⟨by rw [wrap_log, hend]; exact List.not_mem_nil, bs, fs ++ [p.kind], ?_, hbs, ?_, ?_⟩
    · rw [hlog, List.append_assoc (past ++ bs)]
    · intro k hk
      rcases List.mem_append.mp hk with hk | hk
      · exact hfs k hk
      · rw [List.mem_singleton.mp hk, p.kind_side, hside]
    · exact fun _ => by rw [wrap_log, hend]

/-- A run keeps the backend first. -/
theorem backendFirst_of_reaches (h : c₀.Fresh)
    (hreach : Reaches step (.initial, c₀) (.looping s, c))
    (hrestless : (c.wrap .backend).stream.Restless)
    (hreach' : Reaches step (.looping s, c) (.looping s', c')) : BackendFirst c.history c' := by
  have hinv : ∀ y, Reaches step (.looping s, c) y → BackendFirst c.history y.2 := by
    intro y hy
    induction hy with
    | refl => exact backendFirst_of_restless hrestless
    | @tail y z hy hlast ih =>
      obtain ⟨s₁, hs₁⟩ := phase_of_reaches_looping hy
      obtain ⟨s₂, hs₂⟩ := phase_of_reaches_looping (hy.tail hlast)
      obtain ⟨ph, d⟩ := y
      obtain ⟨ph', d'⟩ := z
      obtain rfl : ph = .looping s₁ := hs₁
      obtain rfl : ph' = .looping s₂ := hs₂
      exact backendFirst_of_stepsTo h (hreach.trans hy) ih hlast
  exact hinv _ hreach'

end Conveyor

/-- In the main loop the backend comes first. While its stream never pauses, the messages of the
frontend are only read after the last answer of the backend; and when the backend pauses, a message
of the frontend that is there is read next. -/
theorem go_backend_first (frontend backend : Stream)
    (frontendTlsServer backendTlsClient : TlsProvider) (overflowChecks : Bool) :
    let c₀ := new frontend backend frontendTlsServer backendTlsClient overflowChecks
    ∀ s c, Reaches step (.initial, c₀) (.looping s, c) →
      ((c.wrap .backend).stream.Restless →
        ∀ s' c', Reaches step (.looping s, c) (.looping s', c') →
          (∃ bs fs, c'.history = c.history ++ bs ++ fs ∧ (∀ k ∈ bs, k.side = .backend) ∧
            (∀ k ∈ fs, k.side = .frontend) ∧ (fs ≠ [] → (c'.wrap .backend).stream = [])) ∧
          ∀ p c₁, Offers c' p c₁ → p.side = .frontend → (c'.wrap .backend).stream = []) ∧
      ∀ p b f, p.side = .frontend → p.type ≠ .frontend .initial →
        pollOne (c.wrap .backend).stream = (.pending, b) →
        (∀ f', (c.wrap .frontend).stream ≠ .pending :: f') →
        Brings (c.wrap .frontend).stream p.bytes f → ∃ c₁, Offers c p c₁ := by
  intro c₀ s c hreach
  have hfresh : c₀.Fresh := fresh_new _ _ _ _ _
  obtain ⟨σ, -, -, -, -, -, hopen, -⟩ := session_of_reaches hfresh hreach
  refine ⟨fun hrestless s' c' hreach' => ?_, fun p b f hp hinitial hb hready hbrings => ?_⟩
  · have hfirst := backendFirst_of_reaches hfresh hreach hrestless hreach'
    obtain ⟨σ', -, -, -, -, -, hopen', -⟩ := session_of_reaches hfresh (hreach.trans hreach')
    exact ⟨hfirst.history_eq, fun p c₁ => stream_eq_nil_of_offers hopen' hfirst.restless⟩
  · obtain ⟨typeByte, htype⟩ := exists_typeByte_of_ne hinitial
    exact exists_offers_of_pending hopen hp htype hb hready hbrings

/-- The frontend wants to terminate, but the backend talks. -/
theorem go_backend_first_terminate :
    let frontend := readyBytes (Packet.startup.bytes ++ Packet.terminate.bytes)
    ∃ c, Reaches step (.initial, new frontend (readyBytes [82]) .ok .ok true)
        (.looping .gotStartup, c) ∧
      ∀ p c₁, Offers c p c₁ → p.side ≠ .frontend := by
  intro frontend
  have hstep := @stepsTo_of_isStartup (new frontend (readyBytes [82]) .ok .ok true) plainLayers
    (fun side => by cases side <;> exact ⟨_, rfl⟩) Packet.startup ⟨_, rfl⟩
    (readyBytes Packet.terminate.bytes) (by rfl)
  refine ⟨_, .single hstep, fun p c₁ ho hp => ?_⟩
  obtain ⟨-, hnone⟩ := (go_backend_first _ _ _ _ _ _ _ (.single hstep)).1
    (show .pending ∉ readyBytes [82] by decide) _ _ .refl
  cases hnone p c₁ ho hp

end Postgread
