import Postgread.Convey.Automaton

/-!
# The race of the two sides

Before every message of the main loop two reads of one byte race, and the loser is dropped.
`readTypeByteFromBoth_loses_nothing` answers the open question of the source: the loser has consumed
no byte, so over any number of calls, with the bodies of messages read in between, each side hands
over the bytes of its stream in order, none lost and none twice.
-/

namespace Postgread

open Conveyor

/-- A call that reads: the race of the two type bytes, or the rest of one message. -/
inductive ReadCall where
  | typeByte
  | body (t : MsgType)

/-- Make the call; the result is a side and the bytes obtained from it. The type byte that a message
is returned with was obtained before. -/
def ReadCall.run : ReadCall → ConveyM (Side × List UInt8)
  | typeByte => (fun result => (result.1, [result.2.toU8])) <$> readTypeByteFromBoth
  | body t => (fun result => (t.side, result.1.drop (typeLen t.Body))) <$> read t

/-- Call after call, up to the first that fails, with all that was obtained. -/
def runCalls : List ReadCall → Conveyor → List (Side × List UInt8) × Conveyor
  | [], c => ([], c)
  | call :: calls, c =>
    match call.run c with
    | (.ok got, c') => let (gots, c'') := runCalls calls c'; (got :: gots, c'')
    | (.error _, c') => ([], c')

/-- The bytes obtained from one side. -/
def obtainedFrom (side : Side) (gots : List (Side × List UInt8)) : List UInt8 :=
  (gots.filter fun got => got.1 = side).flatMap Prod.snd

/-- Without the type byte a frame is what was read for it. -/
theorem drop_typeLen_frameBytes (Msg : Type) [MsgDecode Msg] (body : List UInt8) :
    (frameBytes (MsgDecode.typeByteOpt Msg) body).drop (typeLen Msg) = lengthAndBody body := by
  rw [typeLen_eq_length, frameBytes, List.append_assoc, List.drop_left, lengthAndBody]

namespace Conveyor

variable {c c' : Conveyor} {layers : Side → Layer}

/-- A successful race. The winner hands over its next byte, the other side has only been waiting. -/
theorem readTypeByteFromBoth_streams (h : c.Open layers) {side : Side} {typeByte : TypeByte}
    (hread : readTypeByteFromBoth c = (.ok (side, typeByte), c')) :
    c'.Open layers ∧ Brings (c.wrap side).stream [typeByte.toU8] (c'.wrap side).stream ∧
      Waits pollOne (c.wrap side.other).stream (c'.wrap side.other).stream := by
  obtain ⟨s, s', hbrings, hwaits, rfl⟩ :=
    selectTypeByte_eq_ok h (readTypeByteFromBoth_eq_ok.mp hread)
  refine ⟨((h.setWrap side s).setWrap side.other s').log _, ?_, ?_⟩
  · simpa using hbrings
  · simpa using hwaits

/-- Whatever comes of a race, what each side has consumed were its next bytes. -/
theorem selectTypeByte_tokens (h : c.Open layers) {r : Except (Halt ConveyError) (Side × UInt8)}
    (hselect : selectTypeByte c = (r, c')) (side : Side) :
    ∃ rest, (c.wrap side).stream.tokens = rest ++ (c'.wrap side).stream.tokens := by
  rcases selectTypeByte_cases h hselect with ⟨s, s', hs, hs', -, rfl⟩ |
    ⟨winner, s₁, s, s', result, hwait, hone, hother, heq⟩
  · refine ⟨[], ?_⟩
    cases side
    · exact hs.tokens_eq.symm.trans (congrArg Script.tokens (StreamWrap.stream_ofLayer _ s).symm)
    · exact hs'.tokens_eq.symm.trans (congrArg Script.tokens (StreamWrap.stream_ofLayer _ s').symm)
  · have hc' : ∃ events, c' = ((c.setWrap winner (.ofLayer (layers winner) s)).setWrap winner.other
        (.ofLayer (layers winner.other) s')).log events := by
      rcases result with e | byte
      · exact ⟨[], by simpa [tookTypeByte, Except.mapError] using (Prod.mk.inj heq).2⟩
      · exact ⟨_, (Prod.mk.inj heq).2⟩
    obtain ⟨events, rfl⟩ := hc'
    obtain rfl | rfl := winner.eq_or_eq_other side
    · rw [← hwait.tokens_eq, pollOne_tokens s₁, hone]
      simp only [wrap_log, wrap_setWrap_of_other, wrap_setWrap_self, StreamWrap.stream_ofLayer]
      exact ⟨_, rfl⟩
    · exact ⟨[], by simpa using hother.tokens_eq.symm⟩

/-- A call that succeeds obtains the next bytes of its side, and the other side has only been
waiting or has not been read at all. -/
theorem ReadCall.run_eq_ok (h : c.Open layers) {call : ReadCall} {side : Side} {bytes : List UInt8}
    (hrun : call.run c = (.ok (side, bytes), c')) : c'.Open layers ∧
      Brings (c.wrap side).stream bytes (c'.wrap side).stream ∧
        (c'.wrap side.other).stream.tokens = (c.wrap side.other).stream.tokens := by
  cases call with
  | typeByte =>
    obtain ⟨⟨side', typeByte⟩, hread, heq⟩ := Proc.map_eq_ok.mp hrun
    obtain ⟨rfl, rfl⟩ := Prod.mk.inj heq
    obtain ⟨hopen, hbrings, hwaits⟩ := readTypeByteFromBoth_streams h hread
    exact ⟨hopen, hbrings, hwaits.tokens_eq⟩
  | body t =>
    obtain ⟨⟨bytes', msg⟩, hread, heq⟩ := Proc.map_eq_ok.mp hrun
    obtain ⟨rfl, rfl⟩ := Prod.mk.inj heq
    obtain ⟨reader, hreader, rfl⟩ := (read_eq h t).mp hread
    obtain ⟨body, hfits, hbrings, -, rfl, -⟩ := readMsgMappingErr_eq_ok.mp hreader
    refine ⟨(h.setWrap t.side _).log _, ?_, by simp⟩
    rw [drop_typeLen_frameBytes]
    simpa using hbrings

/-- A call that fails has consumed, if anything, the next bytes of each side. -/
theorem ReadCall.run_eq_error (h : c.Open layers) {call : ReadCall} {halt : Halt ConveyError}
    (hrun : call.run c = (.error halt, c')) (side : Side) :
    ∃ rest, (c.wrap side).stream.tokens = rest ++ (c'.wrap side).stream.tokens := by
  cases call with
  | typeByte =>
    rw [ReadCall.run, Proc.map_eq_error, readTypeByteFromBoth, Proc.bind_eq_error] at hrun
    rcases hrun with hselect | ⟨⟨side', byte⟩, c₁, hselect, hrest⟩
    · exact selectTypeByte_tokens h hselect side
    · obtain rfl : c₁ = c' := by
        rcases htype : TypeByte.tryFrom byte with _ | t
        · exact (by simpa [htype] using hrest : _ ∧ c₁ = c').2
        · simp [htype] at hrest
      exact selectTypeByte_tokens h hselect side
  | body t =>
    rw [ReadCall.run, Proc.map_eq_error] at hrun
    obtain ⟨reader, hreader, rfl⟩ := (read_eq h t).mp hrun
    obtain ⟨got, -, htokens⟩ := @readMsgMappingErr_honest t.Body _ c.overflowChecks
      ⟨(c.wrap t.side).stream, []⟩
    rw [hreader] at htokens
    obtain rfl | rfl := t.side.eq_or_eq_other side
    · exact ⟨got, by simpa using htokens⟩
    · exact ⟨[], by simp⟩

/-- Over any number of calls, what was obtained from a side and what a failed last call has dropped
are the beginning of its stream. -/
theorem runCalls_tokens (h : c.Open layers) {calls : List ReadCall}
    {gots : List (Side × List UInt8)} (hrun : runCalls calls c = (gots, c')) (side : Side) :
    ∃ rest, (c.wrap side).stream.tokens =
        obtainedFrom side gots ++ rest ++ (c'.wrap side).stream.tokens ∧
      (gots.length = calls.length → rest = []) := by
  induction calls generalizing c gots with
  | nil =>
    obtain ⟨rfl, rfl⟩ : [] = gots ∧ c = c' := by simpa [runCalls] using hrun
    exact ⟨[], rfl, fun _ => rfl⟩
  | cons call calls ih =>
    rw [runCalls] at hrun
    rcases hcall : call.run c with ⟨halt | ⟨side', bytes⟩, c₁⟩
    · obtain ⟨rfl, rfl⟩ : [] = gots ∧ c₁ = c' := by simpa [hcall] using hrun
      obtain ⟨rest, hrest⟩ := ReadCall.run_eq_error h hcall side
      exact ⟨rest, hrest, nofun⟩
    · rcases hcalls : runCalls calls c₁ with ⟨gots', c₂⟩
      obtain ⟨rfl, rfl⟩ : (side', bytes) :: gots' = gots ∧ c₂ = c' := by
        simpa [hcall, hcalls] using hrun
      obtain ⟨hopen, hbrings, hother⟩ := ReadCall.run_eq_ok h hcall
      obtain ⟨rest, htokens, hrest⟩ := ih hopen hcalls
      refine ⟨rest, ?_, fun hlen => hrest (Nat.succ.inj hlen)⟩
      obtain rfl | rfl := side'.eq_or_eq_other side
      · rw [hbrings.tokens_eq, htokens]
        simp [obtainedFrom]
      · rw [← hother, htokens]
        simp [obtainedFrom, side'.other_ne.symm]

/-- A race loses no byte. A call that succeeds returns the next byte of the side that it names, and
the other side has at most answered some polls with `pending`. Over any number of calls, with bodies
read in between, the bytes obtained from each side are the beginning of its stream, and as long as
no call has failed the rest of the stream is still there. -/
theorem readTypeByteFromBoth_loses_nothing (h : c.Open layers) :
    (∀ side typeByte c', readTypeByteFromBoth c = (.ok (side, typeByte), c') →
      (c.wrap side).stream.tokens = typeByte.toU8 :: (c'.wrap side).stream.tokens ∧
      Waits pollOne (c.wrap side.other).stream (c'.wrap side.other).stream ∧
      (c'.wrap side.other).stream.tokens = (c.wrap side.other).stream.tokens) ∧
    ∀ calls gots c', runCalls calls c = (gots, c') → ∀ side, ∃ rest,
      (c.wrap side).stream.tokens =
        obtainedFrom side gots ++ rest ++ (c'.wrap side).stream.tokens ∧
      (gots.length = calls.length → rest = []) := by
  refine ⟨fun side typeByte c' hread => ?_, fun calls gots c' hrun => runCalls_tokens h hrun⟩
  obtain ⟨-, hbrings, hwaits⟩ := readTypeByteFromBoth_streams h hread
  exact ⟨hbrings.tokens_eq, hwaits, hwaits.tokens_eq⟩

/-- The frontend wins against a backend that is not ready yet. -/
theorem frontend_wins :
    let fail : TlsProvider := fun _ => .error ⟨""⟩
    let c : Conveyor :=
      ⟨.plain [.ready 81 []], .plain [.pending, .ready 90 [0]], fail, fail, true, []⟩
    let c' : Conveyor :=
      ⟨.plain [], .plain [.ready 90 [0]], fail, fail, true, [.took .frontend .plain 81]⟩
    readTypeByteFromBoth c = (.ok (.frontend, .query), c') ∧
      (c'.wrap .backend).stream.tokens = (c.wrap .backend).stream.tokens := by
  intro fail c c'
  have hopen : c.Open fun _ => .plain := fun side => by cases side <;> exact ⟨_, rfl⟩
  exact ⟨rfl, ((readTypeByteFromBoth_loses_nothing hopen).1 .frontend .query c' rfl).2.2⟩

end Conveyor

end Postgread
