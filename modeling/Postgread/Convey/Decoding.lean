import Postgread.Convey.Message

/-!
# Truncation and extension of messages

`decodeBody_extension` is the law of all decoders of messages: a decoder that has succeeded ignores
what follows and reports a shortage on anything shorter, a reported shortage is exact, and an error
about the contents does not depend on what follows.
-/

namespace Postgread

open Decoder Body

/-- The messages that take all that is left of a body. -/
def Message.TakesRest : Message → Prop
  | .backend (.authentication msg) => msg.TakesRest
  | .frontend (.gssResponse _) | .frontend (.saslResponse _) => True
  | _ => False

namespace MsgType

/-- The decoder of the messages of a type. -/
abbrev decodeBody (t : MsgType) : Decode t.Body := MsgDecode.decodeBody

/-- Type by type, a decoder reports a shortage or an error for good reason. -/
theorem decodeBody_stable (t : MsgType) : Stable t.decodeBody := by
  rcases t with t | t
  · cases t with
    | authentication => exact Authentication.decodeBody_stable
    | backendKeyData => exact BackendKeyData.decodeBody_framed.toStable
    | bindComplete => exact BindComplete.decodeBody_framed.toStable
    | commandComplete => exact CommandComplete.decodeBody_framed.toStable
    | dataRow => exact DataRow.decodeBody_framed.toStable
    | emptyQueryResponse => exact EmptyQueryResponse.decodeBody_framed.toStable
    | errorResponse => exact ErrorResponse.decodeBody_framed.toStable
    | negotiateProtocolVersion => exact NegotiateProtocolVersion.decodeBody_framed.toStable
    | noticeResponse => exact NoticeResponse.decodeBody_framed.toStable
    | parameterStatus => exact ParameterStatus.decodeBody_framed.toStable
    | parseComplete => exact ParseComplete.decodeBody_framed.toStable
    | portalSuspended => exact PortalSuspended.decodeBody_framed.toStable
    | readyForQuery => exact ReadyForQuery.decodeBody_framed.toStable
    | rowDescription => exact RowDescription.decodeBody_framed.toStable
  · cases t with
    | bind => exact Bind.decodeBody_framed.toStable
    | execute => exact Execute.decodeBody_framed.toStable
    | gssResponse => exact GssResponse.decodeBody_stable
    | initial => exact Initial.decodeBody_framed.toStable
    | parse => exact Parse.decodeBody_framed.toStable
    | password => exact Password.decodeBody_framed.toStable
    | query => exact Query.decodeBody_framed.toStable
    | saslInitialResponse => exact SaslInitialResponse.decodeBody_framed.toStable
    | saslResponse => exact SaslResponse.decodeBody_stable
    | sync => exact Sync.decodeBody_framed.toStable
    | terminate => exact Terminate.decodeBody_framed.toStable

/-- Type by type, a decoder that does not take the rest is exact about where a message ends. -/
theorem decodeBody_exact (t : MsgType) :
    Exact t.decodeBody fun msg => ¬ (t.wrap msg).TakesRest := by
  rcases t with t | t
  · cases t with
    | authentication => exact Authentication.decodeBody_exact
    | backendKeyData => exact BackendKeyData.decodeBody_framed.exact _
    | bindComplete => exact BindComplete.decodeBody_framed.exact _
    | commandComplete => exact CommandComplete.decodeBody_framed.exact _
    | dataRow => exact DataRow.decodeBody_framed.exact _
    | emptyQueryResponse => exact EmptyQueryResponse.decodeBody_framed.exact _
    | errorResponse => exact ErrorResponse.decodeBody_framed.exact _
    | negotiateProtocolVersion => exact NegotiateProtocolVersion.decodeBody_framed.exact _
    | noticeResponse => exact NoticeResponse.decodeBody_framed.exact _
    | parameterStatus => exact ParameterStatus.decodeBody_framed.exact _
    | parseComplete => exact ParseComplete.decodeBody_framed.exact _
    | portalSuspended => exact PortalSuspended.decodeBody_framed.exact _
    | readyForQuery => exact ReadyForQuery.decodeBody_framed.exact _
    | rowDescription => exact RowDescription.decodeBody_framed.exact _
  · cases t with
    | bind => exact Bind.decodeBody_framed.exact _
    | execute => exact Execute.decodeBody_framed.exact _
    | gssResponse => exact exact_map_of_not fun _ h => h trivial
    | initial => exact Initial.decodeBody_framed.exact _
    | parse => exact Parse.decodeBody_framed.exact _
    | password => exact Password.decodeBody_framed.exact _
    | query => exact Query.decodeBody_framed.exact _
    | saslInitialResponse => exact SaslInitialResponse.decodeBody_framed.exact _
    | saslResponse => exact exact_map_of_not fun _ h => h trivial
    | sync => exact Sync.decodeBody_framed.exact _
    | terminate => exact Terminate.decodeBody_framed.exact _

/-- What the framer makes of a body that was decoded with a remainder. -/
theorem msgResult_of_left {t : MsgType} {body : List UInt8} {msg : t.Body} {source : BytesSource}
    (h : t.decodeBody (BytesSource.new body) = (.ok msg, source)) :
    msgResult t.Body body =
      if source.left = 0 then .ok msg else .error (.leftUndecoded source.left) := by
  have hdecode : (MsgDecode.decodeBody : Decode t.Body) (BytesSource.new body) =
    (.ok msg, source) := h
  simp only [msgResult, hdecode]
  rcases source.left with _ | n <;> rfl

/-- The law of truncation and extension: a message that was decoded from the first `source.pos`
bytes of a body is decoded whatever follows them, which is left, and anything shorter is a shortage
of at most what is missing. A shortage of `n` bytes stays one until `n` bytes have come, and an
error about the contents stays the same whatever comes. -/
theorem decodeBody_extension (t : MsgType) (body : List UInt8) :
    (∀ msg source, t.decodeBody (BytesSource.new body) = (.ok msg, source) →
      ¬ (t.wrap msg).TakesRest →
        (∀ x : List UInt8,
          (∃ source', t.decodeBody (BytesSource.new (body.take source.pos ++ x)) =
              (.ok msg, source') ∧ source'.left = x.length) ∧
            msgResult t.Body (body.take source.pos ++ x) =
              if x = [] then .ok msg else .error (.leftUndecoded x.length)) ∧
        ∀ k < source.pos, ∃ e source',
          t.decodeBody (BytesSource.new (body.take k)) = (.error e, source') ∧
            (e = .noNullByte ∨ ∃ n, e = .needMoreBytes n ∧ 1 ≤ n ∧ n ≤ source.pos - k)) ∧
      ∀ e source, t.decodeBody (BytesSource.new body) = (.error e, source) →
        (∀ n, e = .needMoreBytes n → 1 ≤ n ∧ ∀ x : List UInt8, x.length < n →
          ∃ source', t.decodeBody (BytesSource.new (body ++ x)) =
            (.error (.needMoreBytes (n - x.length)), source')) ∧
        ∀ text, e = .incorrect text ∨ e = .unknown text → ∀ x : List UInt8,
          ∃ source', t.decodeBody (BytesSource.new (body ++ x)) = (.error e, source') := by
  refine ⟨fun msg source h hrest => ?_, fun e source h => ?_⟩
  · obtain ⟨hextend, hcut⟩ := t.decodeBody_exact.take_pos t.decodeBody_stable.toLocal h hrest
    refine ⟨fun x => ⟨hextend x, ?_⟩, hcut⟩
    obtain ⟨source', hsource', hleft⟩ := hextend x
    rw [msgResult_of_left hsource', hleft]
    simp only [List.length_eq_zero_iff]
  · obtain ⟨hshort, hfinal⟩ := t.decodeBody_stable.append h
    refine ⟨hshort, fun text htext => hfinal ?_⟩
    rcases htext with rfl | rfl
    · exact isFinal_incorrect text
    · exact isFinal_unknown text

end MsgType

end Postgread
