import Mathlib.Tactic.Abel
import Postgread.Convey.Cycle

/-!
# The language of start-up

`startup` is what a frontend and a backend say between the start-up packet and the first
`ReadyForQuery`, without notices. `toReady_gotStartup` derives it from the table of the main loop,
`go_startup` says that a run conveys exactly its words before it first gets to
`State::ReadyForQuery`.
-/

open scoped Computability

namespace Postgread

open Body Conveyor Event

namespace StartupLanguage

open AuthType BackendType FrontendType

/-- One of the ways to authenticate. -/
def authentication : Language Kind :=
  AuthType.ok.word +
  cleartextPassword.word * password.word * AuthType.ok.word +
  md5Password.word * password.word * AuthType.ok.word +
  (gss.word + sspi.word) * gssResponse.word * (gssContinue.word * gssResponse.word)∗ *
    AuthType.ok.word +
  sasl.word * saslInitialResponse.word * (saslContinue.word * saslResponse.word)∗ *
    saslFinal.word * AuthType.ok.word

/-- What comes after the authentication. -/
def parameters : Language Kind :=
  (parameterStatus.word + negotiateProtocolVersion.word)∗ * backendKeyData.word * readyForQuery.word

/-- The whole start-up. -/
def startup : Language Kind :=
  negotiateProtocolVersion.word∗ * authentication * parameters

/-- The last message of the start-up. -/
theorem toReady_sentAllBackendParams :
    toReady .sentAllBackendParams = readyForQuery.word := by
  have h := @toReady_eq .sentAllBackendParams (by decide)
    [(.backend .readyForQuery, .readyForQuery)] rfl
  rwa [List.map_singleton, List.sum_singleton, toReady_readyForQuery, mul_one] at h

/-- Parameters are reported until the key data comes. -/
theorem toReady_authenticated : toReady .authenticated = parameters := by
  have h := @toReady_eq .authenticated (by decide)
    [(.backend .backendKeyData, .sentAllBackendParams),
      (.backend .negotiateProtocolVersion, .authenticated),
      (.backend .parameterStatus, .authenticated)] rfl
  rw [parameters, mul_assoc]
  refine (Language.self_eq_mul_add_iff (nil_notMem_add (nil_notMem_letter _)
    (nil_notMem_letter _))).mp (h.trans ?_)
  simp only [List.map_cons, List.map_nil, List.sum_cons, List.sum_nil, toReady_sentAllBackendParams,
    add_mul]
  abel

/-- A password is the answer to a single request. -/
theorem toReady_askedCleartextPassword :
    toReady .askedCleartextPassword = password.word * AuthType.ok.word * parameters := by
  have h := @toReady_eq .askedCleartextPassword (by decide)
    [(.frontend .password, .gotCleartextPassword)] rfl
  have h' := @toReady_eq .gotCleartextPassword (by decide)
    [(.authentication .ok, .authenticated)] rfl
  rw [List.map_singleton, List.sum_singleton] at h h'
  rw [h, h', toReady_authenticated, mul_assoc]

/-- The same with MD5. -/
theorem toReady_askedMd5Password :
    toReady .askedMd5Password = password.word * AuthType.ok.word * parameters := by
  have h := @toReady_eq .askedMd5Password (by decide) [(.frontend .password, .gotMd5Password)] rfl
  have h' := @toReady_eq .gotMd5Password (by decide) [(.authentication .ok, .authenticated)] rfl
  rw [List.map_singleton, List.sum_singleton] at h h'
  rw [h, h', toReady_authenticated, mul_assoc]

/-- The exchange goes on until the backend says that it is over. -/
theorem toReady_askedGssResponse :
    toReady .askedGssResponse = gssResponse.word * (gssContinue.word * gssResponse.word)∗ *
      AuthType.ok.word * parameters := by
  have h := @toReady_eq .askedGssResponse (by decide)
    [(.frontend .gssResponse, .gotGssResponse)] rfl
  have h' := @toReady_eq .gotGssResponse (by decide)
    [(.authentication .gssContinue, .askedGssResponse), (.authentication .ok, .authenticated)] rfl
  rw [List.map_singleton, List.sum_singleton] at h
  -- the rounds of the exchange are the only loop
  have hgot : toReady .gotGssResponse =
      (gssContinue.word * gssResponse.word)∗ * (AuthType.ok.word * parameters) := by
    refine (Language.self_eq_mul_add_iff (nil_notMem_letter_mul _ _)).mp (h'.trans ?_)
    simp only [List.map_cons, List.map_nil, List.sum_cons, List.sum_nil, add_zero, h,
      toReady_authenticated, mul_assoc]
  rw [h, hgot]
  simp only [mul_assoc]

/-- Continued in the same way, but closed by a message of its own. -/
theorem toReady_askedSaslInitialResponse :
    toReady .askedSaslInitialResponse = saslInitialResponse.word *
      (saslContinue.word * saslResponse.word)∗ * saslFinal.word * AuthType.ok.word *
      parameters := by
  have h := @toReady_eq .askedSaslInitialResponse (by decide)
    [(.frontend .saslInitialResponse, .gotAnySaslResponse)] rfl
  have hresponse := @toReady_eq .askedSaslResponse (by decide)
    [(.frontend .saslResponse, .gotAnySaslResponse)] rfl
  have hfinal := @toReady_eq .finishedSasl (by decide) [(.authentication .ok, .authenticated)] rfl
  have h' := @toReady_eq .gotAnySaslResponse (by decide)
    [(.authentication .saslContinue, .askedSaslResponse),
      (.authentication .saslFinal, .finishedSasl)] rfl
  rw [List.map_singleton, List.sum_singleton] at h hresponse hfinal
  -- each further challenge is answered
  have hgot : toReady .gotAnySaslResponse = (saslContinue.word * saslResponse.word)∗ *
      (saslFinal.word * (AuthType.ok.word * parameters)) := by
    refine (Language.self_eq_mul_add_iff (nil_notMem_letter_mul _ _)).mp (h'.trans ?_)
    simp only [List.map_cons, List.map_nil, List.sum_cons, List.sum_nil, add_zero, hresponse,
      hfinal, toReady_authenticated, mul_assoc]
  rw [h, hgot]
  simp only [mul_assoc]

/-- The words of the start-up are those that lead to `State::ReadyForQuery`. -/
theorem toReady_gotStartup : toReady .gotStartup = startup := by
  have h := @toReady_eq .gotStartup (by decide)
    [(.authentication .cleartextPassword, .askedCleartextPassword),
      (.authentication .gss, .askedGssResponse),
      (.authentication .md5Password, .askedMd5Password),
      (.authentication .ok, .authenticated),
      (.authentication .sasl, .askedSaslInitialResponse),
      (.authentication .sspi, .askedGssResponse),
      (.backend .negotiateProtocolVersion, .gotStartup)] rfl
  rw [startup, mul_assoc]
  refine (Language.self_eq_mul_add_iff (nil_notMem_letter _)).mp (h.trans ?_)
  simp only [List.map_cons, List.map_nil, List.sum_cons, List.sum_nil,
    toReady_askedCleartextPassword, toReady_askedMd5Password, toReady_askedGssResponse,
    toReady_askedSaslInitialResponse, toReady_authenticated, authentication, add_mul, mul_assoc]
  abel

/-! ## Histories -/

/-- The states before the authentication is complete. -/
def beforeAuthentication : List State :=
  [.gotStartup, .askedCleartextPassword, .gotCleartextPassword, .askedMd5Password, .gotMd5Password,
    .askedGssResponse, .gotGssResponse, .askedSaslInitialResponse, .askedSaslResponse,
    .gotAnySaslResponse, .finishedSasl]

/-- The states before the first `ReadyForQuery`. -/
def beforeReady : List State := beforeAuthentication ++ [.authenticated, .sentAllBackendParams]

/-- Without `AuthenticationOk` the authentication is not complete. -/
theorem mem_beforeAuthentication {ks : List Kind} {s : State}
    (h : advanceAll .gotStartup ks = some s) (hks : .authentication .ok ∉ ks) :
    s ∈ beforeAuthentication :=
  State.mem_of_advanceAll (by decide +kernel) (by decide) h hks

/-- Without `ReadyForQuery` the start-up is not complete. -/
theorem mem_beforeReady {ks : List Kind} {s : State} (h : advanceAll .gotStartup ks = some s)
    (hks : .backend .readyForQuery ∉ ks) : s ∈ beforeReady :=
  State.mem_of_advanceAll (by decide +kernel) (by decide) h hks

/-- The word up to the first `ReadyForQuery` is one of the start-up. -/
theorem eraseNotices_mem_startup {u v : List Kind}
    (h : Conveys .gotStartup (u ++ .backend .readyForQuery :: v))
    (hu : .backend .readyForQuery ∉ u) :
    eraseNotices (u ++ [.backend .readyForQuery]) ∈ startup := by
  obtain ⟨s, hs, hready⟩ := h.exists_advanceAll
  have hadvance : advance s (.backend .readyForQuery) = some .readyForQuery := by
    obtain ⟨next, haccept⟩ := hready.exists_accept (by decide)
    rcases State.accept_readyForQuery s with hnone | hadvance
    · rw [hnone] at haccept
      cases haccept
    · exact hadvance
  rw [← toReady_gotStartup]
  refine filter_mem_arrivals advance_of_isNotice ⟨advanceAll_concat hs hadvance, ?_⟩
  intro w hw hne hreach
  have hpre : w <+: u := (List.prefix_concat_iff.mp hw).resolve_left hne
  exact absurd (mem_beforeReady hreach fun hmem => hu (hpre.subset hmem)) (by decide)

/-- The message that answers an authentication request. -/
def response : AuthType → Option FrontendType
  | .cleartextPassword | .md5Password => some .password
  | .gss | .gssContinue | .sspi => some .gssResponse
  | .sasl => some .saslInitialResponse
  | .saslContinue => some .saslResponse
  | .kerberosV5 | .ok | .saslFinal | .scmCredential => none

/-- The authentication request that a message is. -/
def request : Kind → Option AuthType
  | .authentication t => some t
  | _ => none

/-- The last authentication request in a word. -/
def lastRequest (ks : List Kind) : Option AuthType := (ks.filterMap request).getLast?

/-- How a frame with the type byte `p` is decoded in a state. -/
def asks (s : State) : Option MsgType :=
  match arm .frontend .gssResponseOrPasswordOrSaslResponses s with
  | .through t _ => some t
  | _ => none

/-- A message that is no authentication request leaves the last one in place. -/
theorem lastRequest_concat (ks : List Kind) (k : Kind) :
    lastRequest (ks ++ [k]) = (request k).or (lastRequest ks) := by
  rw [lastRequest, List.filterMap_append]
  cases h : request k <;> simp [h, lastRequest]

/-- A state asks for the answer to the last authentication request. -/
theorem asks_eq_response {ks : List Kind} {s : State} {t : MsgType}
    (h : advanceAll .gotStartup ks = some s) (ht : asks s = some t) :
    ∃ a t', lastRequest ks = some a ∧ response a = some t' ∧ t = .frontend t' := by
  refine @advanceAll_induction (fun ks s => ∀ t, asks s = some t → ∃ a t', lastRequest ks = some a ∧
    response a = some t' ∧ t = .frontend t') _ _ _ (fun t ht => ?_) (fun ks s k s' ih hk t ht => ?_)
    h t ht
  · cases (show none = some t from ht)
  rw [lastRequest_concat]
  -- a message asks for nothing, for what was asked for before, or for the answer to itself
  have hcases := @State.advance_cases (fun s k s' => asks s' = none ∨
    (request k = none ∧ asks s' = asks s) ∨
      asks s' = ((request k).bind response).map MsgType.frontend) (by decide +kernel) _ _ _ hk
  rcases hcases with hnone | ⟨hnone, hsame⟩ | hresponse
  · rw [hnone] at ht
    cases ht
  · rw [hnone]
    exact ih t (by rwa [← hsame])
  · obtain ⟨t', ht', rfl⟩ := Option.map_eq_some_iff.mp (hresponse.symm.trans ht)
    obtain ⟨a, ha, ht'⟩ := Option.bind_eq_some_iff.mp ht'
    exact ⟨a, t', by rw [ha]; rfl, ht', rfl⟩

/-- The messages that need an authentication. -/
def commands : List Kind :=
  [.frontend .query, .frontend .parse, .frontend .bind, .frontend .execute, .frontend .terminate]

/-- No command is conveyed before the authentication is complete. -/
theorem ok_mem_of_command {u v : List Kind} {k : Kind} (h : Conveys .gotStartup (u ++ k :: v))
    (hk : k ∈ commands) : .authentication .ok ∈ u := by
  by_contra hok
  obtain ⟨s, hs, hconveys⟩ := h.exists_advanceAll
  have htype : ∀ k ∈ commands, k.type ≠ .backend .authentication := by decide
  have hnone : ∀ s ∈ beforeAuthentication, ∀ k ∈ commands, accept s k = none := by decide
  obtain ⟨next, haccept⟩ := hconveys.exists_accept (htype k hk)
  rw [hnone s (mem_beforeAuthentication hs hok) k hk] at haccept
  cases haccept

/-- A word of the start-up leads to `State::ReadyForQuery`. -/
theorem advanceAll_of_mem_startup {ks : List Kind} (h : eraseNotices ks ∈ startup) :
    advanceAll .gotStartup ks = some .readyForQuery := by
  rw [← toReady_gotStartup] at h
  exact foldlM_of_filter_mem_arrivals advance_of_isNotice h

/-- Up to the first `ReadyForQuery` a run conveys a word of the start-up. Every such word is
conveyed whole when it arrives, in whatever order its packets come. No command is forwarded before
the authentication is complete, and a frame with the type byte `p` is always decoded as the answer
to the last authentication request. -/
theorem go_startup (frontend backend : Stream) (frontendTlsServer backendTlsClient : TlsProvider)
    (overflowChecks : Bool) :
    let c₀ := new frontend backend frontendTlsServer backendTlsClient overflowChecks
    (∀ u v, (go c₀).2.history = u ++ .backend .readyForQuery :: v →
      .backend .readyForQuery ∉ u → eraseNotices (u ++ [.backend .readyForQuery]) ∈ startup) ∧
    (∀ c c' ps, Reaches step (.initial, c₀) (.looping .gotStartup, c) → Arrives c ps c' →
      eraseNotices (ps.map Packet.kind) ∈ startup →
      ∃ c₂, Reaches step (.looping .gotStartup, c) (.looping .readyForQuery, c₂) ∧
        callbacks c₂.trace = callbacks c.trace ++ ps.map Packet.message ∧
        Event.writes c₂.trace =
          Event.writes c.trace ++ ps.map fun p => (p.side.other, p.bytes)) ∧
    (∀ (p₀ : Packet) (ps : List Packet), p₀.IsStartup →
      eraseNotices (ps.map Packet.kind) ∈ startup →
      ∃ c, Reaches step
          (.initial, arrangedConveyor p₀ ps frontendTlsServer backendTlsClient overflowChecks)
          (.looping .readyForQuery, c) ∧
        callbacks c.trace = (p₀ :: ps).map Packet.message ∧ c.bytesLeft = 0) ∧
    (∀ ms ms' (m : Message), callbacks (go c₀).2.trace = ms ++ m :: ms' → m.kind ∈ commands →
      ∃ m' ∈ ms, m'.kind = .authentication .ok) ∧
    ∀ s c t next, Reaches step (.initial, c₀) (.looping s, c) →
      arm .frontend .gssResponseOrPasswordOrSaslResponses s = .through t next →
      ∃ a t', lastRequest c.history = some a ∧ response a = some t' ∧ t = .frontend t' := by
  intro c₀
  have hfresh : c₀.Fresh := fresh_new _ _ _ _ _
  refine ⟨fun u v hhistory hu => ?_, fun c c' ps hreach harrives hps => ?_, fun p₀ ps hp₀ hps => ?_,
    fun ms ms' m hsplit hm => ?_, fun s c t next hreach harm => ?_⟩
  · have hconveys := conveys_history hfresh
    rw [hhistory] at hconveys
    exact eraseNotices_mem_startup hconveys hu
  · exact conveyed_of_arrives hfresh hreach harrives (advanceAll_of_mem_startup hps)
  · exact reaches_arranged hp₀ (advanceAll_of_mem_startup hps) _ _ _
  · have htypes :
        ∀ k ∈ commands, k.type ≠ .frontend .initial ∧ k.type ≠ .backend .errorResponse := by
      decide
    have hconveys := conveys_history hfresh
    rw [history_split hfresh hsplit (htypes _ hm).1 (htypes _ hm).2] at hconveys
    exact exists_mem_of_mem_afterStartup (ok_mem_of_command hconveys hm)
  · exact asks_eq_response (advanceAll_history hfresh hreach) (by rw [asks, harm])

end StartupLanguage

end Postgread
