import Postgread.Convey.Transparency

/-!
# Rejected messages

A message that the proxy rejects should not reach the other side. `rejected_not_written_iff` says
exactly when this is so: `go` judges most messages before it writes them, but it conveys an
authentication request, and a request for TLS inside TLS, before it looks at the state.
-/

namespace Postgread

open Body Conveyor Event

namespace Conveyor

/-- The next message is one that is conveyed before it is judged: a complete authentication request
in the main loop, or a complete request for TLS inside TLS. -/
def Exposed : Phase → Conveyor → Prop
  | .looping _, c => ∃ p c', p.type = .backend .authentication ∧ Offers c p c'
  | .initialInsideTls, c =>
    ∃ (p : Packet) (s : Stream), p.IsTls ∧ Brings (c.wrap .frontend).stream p.bytes s
  | _, _ => False

variable {c c' : Conveyor} {layers : Side → Layer}

/-- The request for TLS inside TLS is conveyed. -/
theorem step_initialInsideTls_of_brings (h : c.Open layers) {p : Packet} {s : Stream} (hp : p.IsTls)
    (hbrings : Brings (c.wrap .frontend).stream p.bytes s) :
    ∃ c', step .initialInsideTls c = (.error (.error (.tlsError .tlsRequestedInsideTls)), c') ∧
      c'.trace = c.trace ++ p.events layers := by
  refine ⟨_, Proc.bind_of_ok (readInitial_of_brings h hp hbrings), ?_⟩
  rw [trace_log, trace_setWrap]

/-- If the next message is exposed, a step that fails has written it. -/
theorem written_of_exposed {ph : Phase} (hat : At ph layers c) (hexposed : Exposed ph c)
    {halt : Halt ConveyError} (hstep : step ph c = (.error halt, c')) :
    ∃ p : Packet, c'.trace = c.trace ++ p.events layers := by
  cases ph with
  | initial => exact hexposed.elim
  | tlsReply => exact hexposed.elim
  | initialInsideTls =>
    obtain ⟨p, s, hp, hbrings⟩ := hexposed
    obtain ⟨c₁, hstep₁, htrace⟩ := step_initialInsideTls_of_brings hat.isOpen hp hbrings
    obtain ⟨-, rfl⟩ : _ ∧ c₁ = c' := by simpa [hstep₁] using hstep
    exact ⟨p, htrace⟩
  | looping s =>
    obtain ⟨p, c₁, htype, ho⟩ := hexposed
    rw [step, Proc.map_eq_error] at hstep
    -- the authentication has been written in either case, and it fails because the state rejects it
    rcases haccept : accept s p.kind with _ | next
    · obtain ⟨e, hbody⟩ := loopBody_eq_error_of_authentication hat.isOpen ho htype haccept
      obtain ⟨-, rfl⟩ : _ ∧ c₁.log (p.events layers) = c' := by simpa [hbody] using hstep
      exact ⟨p, by rw [trace_log, (ho.streams hat.isOpen).2.1]⟩
    · have hbody := (loopBody_eq_ok hat.isOpen).mpr ⟨p, c₁, ho, haccept, rfl⟩
      simp [hbody] at hstep

/-- A step that fails on a message that is not exposed has written nothing, unless a handshake has
failed. -/
theorem writes_of_not_exposed {ph : Phase} (hat : At ph layers c) (hexposed : ¬ Exposed ph c)
    {e : ConveyError} (hstep : step ph c = (.error (.error e), c')) :
    Event.writes c'.trace = Event.writes c.trace := by
  obtain ⟨events, hfails, htrace⟩ := step_eq_error hat hstep
  generalize hhalt : Halt.error e = halt at hfails
  cases hfails with
  | reading => rw [htrace, writes_append, writes_map_took, List.append_nil]
  | handshake => cases hhalt
  | authentication htype ho =>
    obtain ⟨c₁, ho⟩ := ho
    exact absurd ⟨_, c₁, htype, ho⟩ hexposed
  | tlsInsideTls hp hbrings =>
    obtain ⟨s, hbrings⟩ := hbrings
    exact absurd ⟨_, s, hp, hbrings⟩ hexposed

/-- In every run that ends with an error: none of the bytes of its last message have been written,
exactly if this is not one of those that are conveyed before they are judged. -/
theorem rejected_not_written_iff {frontend backend : Stream}
    {frontendTlsServer backendTlsClient : TlsProvider} {overflowChecks : Bool} {ph : Phase}
    {e : ConveyError}
    (hreach : Reaches step
      (.initial, new frontend backend frontendTlsServer backendTlsClient overflowChecks) (ph, c))
    (hstep : step ph c = (.error (.error e), c')) :
    go (new frontend backend frontendTlsServer backendTlsClient overflowChecks) =
        (.error (.error e), c') ∧
      ((∀ side, written side c'.trace = written side c.trace) ↔ ¬ Exposed ph c) := by
  have hfresh := fresh_new frontend backend frontendTlsServer backendTlsClient overflowChecks
  obtain ⟨σ, -, hat, -⟩ := reaches_inv hfresh hreach
  refine ⟨(go_eq_iff hfresh.at_initial).mpr (Ends.of_reaches hreach (.halt hstep)), ?_, ?_⟩
  · intro hwritten hexposed
    obtain ⟨p, htrace⟩ := written_of_exposed hat hexposed hstep
    have hsame := hwritten p.side.other
    rw [htrace, written_append] at hsame
    have hnil : written p.side.other (p.events σ.layers) = [] := by simpa using hsame
    exact p.bytes_ne_nil (by simpa [written] using hnil)
  · intro hexposed side
    rw [written, writes_of_not_exposed hat hexposed hstep, written]

/-- A backend that says twice that the authentication is complete. -/
def authenticatedTwice : Conveyor :=
  let authenticationOk : ReadPoll UInt8 IoError := .ready 82 [0, 0, 0, 8, 0, 0, 0, 0]
  new [.ready 0 [0, 0, 9, 0, 3, 0, 0, 0]] [authenticationOk, authenticationOk] .ok .ok true

/-- The same after its start-up packet and its first authentication. -/
def authenticatedOnce : Conveyor :=
  (step (.looping .gotStartup) (step .initial authenticatedTwice).2).2

/-- The first authentication is accepted. -/
theorem reaches_authenticatedOnce :
    Reaches step (.initial, authenticatedTwice) (.looping .authenticated, authenticatedOnce) :=
  .head (@stepsTo_of_fst _ _ _ _ _ (.looping .gotStartup) _ rfl) (.single (stepsTo_of_fst rfl))

/-- The second one is exposed. -/
theorem authenticatedTwice_exposed : Exposed (.looping .authenticated) authenticatedOnce := by
  have hiff := (rejected_not_written_iff reaches_authenticatedOnce (Prod.ext rfl rfl :
    step (.looping .authenticated) authenticatedOnce =
      (.error (.error (.unexpectedType .authenticated .backend .authentication)), _))).2
  by_contra hexposed
  exact absurd (hiff.mpr hexposed .frontend) (by decide)

/-- The proxy answers the second message with `UnexpectedType`, but the frontend has got it by
then. -/
theorem second_authentication_is_written :
    Reaches step (.initial, authenticatedTwice) (.looping .authenticated, authenticatedOnce) ∧
      ∃ c', step (.looping .authenticated) authenticatedOnce =
          (.error (.error (.unexpectedType .authenticated .backend .authentication)), c') ∧
        written .frontend authenticatedOnce.trace = [82, 0, 0, 0, 8, 0, 0, 0, 0] ∧
        written .frontend c'.trace =
          [82, 0, 0, 0, 8, 0, 0, 0, 0, 82, 0, 0, 0, 8, 0, 0, 0, 0] :=
  ⟨reaches_authenticatedOnce, _, Prod.ext rfl rfl, by decide, by decide⟩

end Conveyor

end Postgread
