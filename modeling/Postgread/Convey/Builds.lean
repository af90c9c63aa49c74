import Postgread.Convey.Outcome

/-!
# Builds with and without overflow checks

The only sum that can overflow is the one in `alloc_vec`. `go_builds` compares the two builds on the
same streams: they consume, report and write the same in the same order, and return the same, except
that the length at which one of them panics is an `EncodeError` in the other.
-/

namespace Postgread

open Body Conveyor

/-- How the two builds may fail where they fail differently. -/
def Overflow (checked unchecked : Halt ConveyError) : Prop :=
  checked = .panic ∧ unchecked = .error (.encodeError (.outOfSpace 1))

/-- Two results of the two builds. -/
def AgreesUpTo {α : Type} (checked unchecked : Except (Halt ConveyError) α) : Prop :=
  unchecked = checked ∨
    ∃ e e', checked = .error e ∧ unchecked = .error e' ∧ Overflow e e'

/-! ## Reading one message -/

section

variable {Msg : Type} [MsgDecode Msg]

/-- The two builds read the same bytes. -/
theorem readMsg_builds (r : Reader UInt8 IoError) :
    readMsg Msg false r = readMsg Msg true r ∨ ∃ r', readMsg Msg true r = (.error .panic, r') ∧
      readMsg Msg false r = (.error (.error (.encodeError (.outOfSpace 1))), r') := by
  rcases hlen : readU32.mapError (Halt.map ReadError.ioError) r with ⟨e | len, r₁⟩
  · left
    simp only [readMsg, Proc.bind_of_error hlen]
  simp only [readMsg, Proc.bind_of_ok hlen]
  by_cases hfits : typeLen Msg + len.toNat < 2 ^ 32
  · left
    rw [allocVec_of_fits false hfits, allocVec_of_fits true hfits]
  · right
    have hoverflow : 2 ^ 32 ≤ typeLen Msg + len.toNat := Nat.le_of_not_lt hfits
    obtain ⟨target, halloc, hput⟩ := putHeader_of_overflow hoverflow
    refine ⟨r₁, ?_, ?_⟩
    · rw [allocVec, if_pos ⟨rfl, hoverflow⟩]
      rfl
    · simp only [halloc, hput]
      rfl

/-- Reading a message, the two builds take the same and differ at most in how they stop. -/
theorem readMsgMappingErr_builds (r : Reader UInt8 IoError) :
    AgreesUpTo (readMsgMappingErr Msg true r).1 (readMsgMappingErr Msg false r).1 ∧
      (readMsgMappingErr Msg false r).2 = (readMsgMappingErr Msg true r).2 := by
  rcases @readMsg_builds Msg _ r with heq | ⟨r', htrue, hfalse⟩
  · have hmap : (readMsg Msg false).mapError (Halt.map readErrorToConveyError) r =
        (readMsg Msg true).mapError (Halt.map readErrorToConveyError) r := by
      rw [Proc.mapError, Proc.mapError, heq]
    rcases hread : (readMsg Msg true).mapError (Halt.map readErrorToConveyError) r
      with ⟨e | data, r'⟩
    · rw [readMsgMappingErr, readMsgMappingErr, Proc.bind_of_error hread,
        Proc.bind_of_error (hmap.trans hread)]
      exact ⟨.inl rfl, rfl⟩
    · rw [readMsgMappingErr, readMsgMappingErr, Proc.bind_of_ok hread,
        Proc.bind_of_ok (hmap.trans hread)]
      exact ⟨.inl rfl, rfl⟩
  · rw [readMsgMappingErr, readMsgMappingErr,
      Proc.bind_of_error (Proc.mapError_eq_error.mpr ⟨_, htrue, rfl⟩),
      Proc.bind_of_error (Proc.mapError_eq_error.mpr ⟨_, hfalse, rfl⟩)]
    exact ⟨.inr ⟨_, _, rfl, rfl, rfl, rfl⟩, rfl⟩

end

namespace Conveyor

/-- The same conveyor in a build that checks overflows and in one that does not. -/
structure Builds (c d : Conveyor) : Prop where
  checked : c.overflowChecks = true
  eq : d = { c with overflowChecks := false }

/-- What both builds do alike, up to an overflow. -/
abbrev Built {α : Type} (x : ConveyM α) : Prop := x.RespectsUpTo Overflow Builds

namespace Builds

variable {c d : Conveyor}

/-- Logging does not tell the builds apart. -/
theorem log (h : Builds c d) (events : List Event) : Builds (c.log events) (d.log events) :=
  ⟨h.checked, by rw [h.eq]; rfl⟩

/-- Setting a wrap does not tell the builds apart. -/
theorem setWrap (h : Builds c d) (side : Side) (w : StreamWrap) :
    Builds (c.setWrap side w) (d.setWrap side w) := by
  refine ⟨(overflowChecks_setWrap _ _ _).trans h.checked, ?_⟩
  rw [h.eq]
  cases side <;> rfl

/-- The builds have the same wraps. -/
theorem wrap_eq (h : Builds c d) (side : Side) : d.wrap side = c.wrap side := by
  rw [h.eq]
  cases side <;> rfl

/-- The builds have the same trace. -/
theorem trace_eq (h : Builds c d) : d.trace = c.trace := by rw [h.eq]

end Builds

/-! ## The operations -/

/-- Reading through a wrap that is open differs as the read does. -/
theorem readAt_builds {α : Type} {side : Side} {layer : Layer} {s : Stream}
    {checked unchecked : Reading ConveyError α} {c d : Conveyor} (h : Builds c d)
    (hread : ∀ r, AgreesUpTo (checked r).1 (unchecked r).1 ∧ (unchecked r).2 = (checked r).2) :
    AgreesUpTo (readAt side layer s checked c).1 (readAt side layer s unchecked d).1 ∧
      Builds (readAt side layer s checked c).2 (readAt side layer s unchecked d).2 := by
  obtain ⟨hresult, hreader⟩ := hread ⟨s, []⟩
  simp only [readAt, hreader]
  exact ⟨hresult, (h.setWrap side _).log _⟩

/-- Reading through a wrap differs as the read does. -/
theorem unwrapStream_builds {α : Type} {side : Side} {checked unchecked : Reading ConveyError α}
    {c d : Conveyor} (h : Builds c d)
    (hread : ∀ r, AgreesUpTo (checked r).1 (unchecked r).1 ∧ (unchecked r).2 = (checked r).2) :
    AgreesUpTo (unwrapStream side checked c).1 (unwrapStream side unchecked d).1 ∧
      Builds (unwrapStream side checked c).2 (unwrapStream side unchecked d).2 := by
  simp only [unwrapStream, h.wrap_eq side]
  rcases c.wrap side with s | _ | s
  · exact readAt_builds h hread
  · exact ⟨.inl rfl, h⟩
  · exact readAt_builds h hread

/-- The builds write alike. -/
theorem write_builds (side : Side) (bytes : List UInt8) : Built (write side bytes) := by
  intro c d h
  simp only [write, h.wrap_eq side]
  rcases c.wrap side with s | _ | s
  · exact ⟨.inl rfl, h.log _⟩
  · exact ⟨.inl rfl, h⟩
  · exact ⟨.inl rfl, h.log _⟩

/-- The builds convey a message alike, up to an overflow. -/
theorem readThrough_builds (t : MsgType) : Built (readThrough t) := by
  have hread : Built (read t) := by
    intro c d h
    rw [read, read, h.checked, h.eq]
    exact unwrapStream_builds ⟨h.checked, rfl⟩ readMsgMappingErr_builds
  have hcallback (msg : Message) : Built (callback msg) := fun _ _ h => ⟨.inl rfl, h.log _⟩
  exact hread.bind fun _ => (hcallback _).bind fun _ => (write_builds _ _).bind fun _ =>
    (Proc.Respects.pure _).upTo _

/-- The builds race alike. -/
theorem selectTypeByte_builds : Built selectTypeByte := by
  intro c d h
  have htook (side : Side) (layer : Layer) (result : Except ConveyError UInt8) :
      Built (tookTypeByte side layer result) := by
    intro c d h
    rcases result with e | byte
    · exact ⟨.inl rfl, h⟩
    · exact ⟨.inl rfl, h.log _⟩
  have hwraps (b f : StreamWrap) : Builds { c with backend := b, frontend := f }
      { d with backend := b, frontend := f } :=
    (h.setWrap .backend b).setWrap .frontend f
  have hbackend : d.backend = c.backend := h.wrap_eq .backend
  have hfrontend : d.frontend = c.frontend := h.wrap_eq .frontend
  simp only [selectTypeByte, rounds, hbackend, hfrontend]
  -- with equal wraps and equally many rounds there is one race for both
  rcases select StreamWrap.pollTypeByte StreamWrap.pollTypeByte _ c.backend c.frontend
    with ⟨_ | (result | result), b, f⟩
  · exact ⟨.inl rfl, hwraps b f⟩
  · exact htook .backend b.layer result _ _ (hwraps b f)
  · exact htook .frontend f.layer result _ _ (hwraps b f)

/-- The builds switch to TLS alike. -/
theorem switchToTls_builds (side : Side) (handshake : TlsProvider) :
    Built (switchToTls side handshake) := by
  intro c d h
  simp only [switchToTls, h.wrap_eq side]
  split
  · exact ⟨.inl rfl, h.setWrap _ _⟩
  · exact ⟨.inl rfl, h.setWrap _ _⟩
  · rename_i plainStream wrap _
    have hbegun := (h.setWrap side wrap).log [.handshakeBegun side plainStream]
    split
    · exact ⟨.inl rfl, hbegun⟩
    · rw [hbegun.wrap_eq]
      split
      · exact ⟨.inl rfl, (hbegun.setWrap _ _).log _⟩
      · exact ⟨.inl rfl, hbegun.setWrap _ _⟩

/-- The builds accept TLS alike. -/
theorem acceptTls_builds : Built acceptTls := by
  refine (write_builds _ _).bind fun _ c d h => ?_
  have hprovider : d.frontendTlsServer = c.frontendTlsServer := by rw [h.eq]
  rw [switchServerToTls, switchServerToTls, hprovider]
  exact switchToTls_builds .frontend _ c d h

/-- The builds reply to a request for TLS alike, up to an overflow. -/
theorem replyToTls_builds : Built replyToTls := by
  have hclient : Built switchClientToTls := by
    intro c d h
    have hprovider : d.backendTlsClient = c.backendTlsClient := by rw [h.eq]
    rw [switchClientToTls, switchClientToTls, hprovider]
    exact switchToTls_builds .backend _ c d h
  have hbyte : Built readBackendTypeByte :=
    fun c d h => unwrapStream_builds h fun _ => ⟨.inl rfl, rfl⟩
  have hpure (accepted : Bool) : Built (pure accepted) := (Proc.Respects.pure _).upTo _
  refine hbyte.bind fun byte => ?_
  split
  · exact acceptTls_builds.bind fun _ => hpure _
  split
  · exact hclient.bind fun _ => acceptTls_builds.bind fun _ => hpure _
  split
  · exact (readThrough_builds _).bind fun _ => hpure _
  · exact (Proc.Respects.fail _).upTo _

/-! ## The whole conversation -/

/-- The builds agree on a round of the main loop, up to an overflow. -/
theorem loopBody_builds (s : State) : Built (loopBody s) := by
  have hfail {α : Type} (halt : Halt ConveyError) : Built (Proc.fail halt : ConveyM α) :=
    (Proc.Respects.fail _).upTo _
  have hpure {α : Type} (a : α) : Built (pure a) := (Proc.Respects.pure _).upTo _
  have hrace : Built readTypeByteFromBoth := by
    refine selectTypeByte_builds.bind fun (side, byte) => ?_
    dsimp only
    split
    · exact hpure _
    · exact hfail _
  refine hrace.bind fun (side, typeByte) => ?_
  dsimp only
  split
  · refine .map _ ((readThrough_builds _).bind fun authentication => ?_)
    split
    · exact hpure _
    · exact hfail _
  · exact (readThrough_builds _).bind fun _ => hpure _
  · exact hfail _

/-- The builds agree on the main loop, up to an overflow. -/
theorem loop_builds (s : State) : Built (loop s) := by
  intro c d h
  have hleft : d.bytesLeft = c.bytesLeft := by rw [h.eq]; rfl
  rw [loop, loop, hleft]
  exact respectsUpTo_iterate loopBody_builds _ s c d h

/-- The builds agree on the whole conversation, up to an overflow. -/
theorem go_built : Built go := by
  have hfail (halt : Halt ConveyError) : Built (Proc.fail halt : ConveyM Unit) :=
    (Proc.Respects.fail _).upTo _
  have hpure : Built (pure ⟨⟩ : ConveyM Unit) := (Proc.Respects.pure _).upTo _
  refine (readThrough_builds _).bind fun i => ?_
  split
  · exact loop_builds _
  · exact hpure
  refine replyToTls_builds.bind fun accepted => ?_
  split
  · refine (readThrough_builds _).bind fun i => ?_
    split
    · exact loop_builds _
    · exact hpure
    · exact hfail _
  · exact hpure

end Conveyor

/-- A build without overflow checks does the same as one with them. It consumes, reports and writes
the same and leaves the same streams in every run, and it returns the same unless the checks panic;
then it returns an `EncodeError` if a length is the reason, and panics as well if a handshake is. -/
theorem go_builds (frontend backend : Stream) (frontendTlsServer backendTlsClient : TlsProvider) :
    let checked := go (new frontend backend frontendTlsServer backendTlsClient true)
    let unchecked := go (new frontend backend frontendTlsServer backendTlsClient false)
    (unchecked.1 = checked.1 ∨ checked.1 = .error .panic ∧
        unchecked.1 = .error (.error (.encodeError (.outOfSpace 1)))) ∧
      unchecked.2.trace = checked.2.trace ∧
      ∀ side, unchecked.2.wrap side = checked.2.wrap side := by
  intro checked unchecked
  obtain ⟨hresult, hbuilds⟩ := go_built
    (new frontend backend frontendTlsServer backendTlsClient true)
    (new frontend backend frontendTlsServer backendTlsClient false) ⟨rfl, rfl⟩
  refine ⟨?_, hbuilds.trace_eq, hbuilds.wrap_eq⟩
  rcases hresult with heq | ⟨e, e', hchecked, hunchecked, rfl, rfl⟩
  · exact .inl heq
  · exact .inr ⟨hchecked, hunchecked⟩

end Postgread
