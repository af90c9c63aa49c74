import Mathlib.Logic.Function.Basic
import Mathlib.Data.List.Basic

/-!
# Parties with a relay between them

Parties send tokens to their peers through channels that keep the order. With a relay in between,
the tokens go to the relay, which takes them and writes to the parties. If what it has written to the
peer of a party is always a beginning of what it has taken from this party, then no party can tell
that it is there: `direct` removes it, and every run with the relay becomes a run without it in which
the parties do the same (`Runs.direct`). The channels only seem to be longer. In the other direction,
a run in which the parties send words that the relay may pass on one by one becomes a run with the
relay (`Talks.relayed`).
-/

universe u

/-- A relay: what its events take from the parties and write to them, and what it may have done. -/
structure Relay (ι τ ε : Type u) where
  takes : ε → ι → List τ
  writes : ε → ι → List τ
  may : List ε → Prop

namespace Relay

variable {ι τ ε : Type u} {σ : ι → Type u}

/-- What a party does in one step. -/
inductive Action (τ : Type u) where
  | send (token : τ)
  | receive (token : τ)
  | think

/-- The steps that each party may take, with states of its own. -/
abbrev Parties (τ : Type u) (σ : ι → Type u) := ∀ i, σ i → Action τ → σ i → Prop

/-- `Runs step s labels t`: some steps lead from `s` to `t`, and these are the labels of those that
have one. -/
inductive Runs {α β : Type u} (step : α → Option β → α → Prop) (s : α) : List β → α → Prop where
  | refl : Runs step s [] s
  | tail {labels : List β} {t u : α} {label : Option β} (h : Runs step s labels t)
      (hstep : step t label u) : Runs step s (labels ++ label.toList) u

/-! ## Without the relay -/

/-- The states of the parties and the tokens on their way to each of them. -/
structure Direct (τ : Type u) (σ : ι → Type u) where
  states : ∀ i, σ i
  arriving : ι → List τ

/-- A step of a party that is connected to its peer. -/
inductive Direct.Step [DecidableEq ι] (parties : Parties τ σ) (peer : ι → ι) (d : Direct τ σ) :
    Option (ι × Action τ) → Direct τ σ → Prop where
  | send {i : ι} {a : τ} {x : σ i} (h : parties i (d.states i) (.send a) x) :
      Step parties peer d (some (i, .send a)) ⟨Function.update d.states i x,
        Function.update d.arriving (peer i) (d.arriving (peer i) ++ [a])⟩
  | receive {i : ι} {a : τ} {x : σ i} {rest : List τ}
      (h : parties i (d.states i) (.receive a) x) (harriving : d.arriving i = a :: rest) :
      Step parties peer d (some (i, .receive a)) ⟨Function.update d.states i x,
        Function.update d.arriving i rest⟩
  | think {i : ι} {x : σ i} (h : parties i (d.states i) .think x) :
      Step parties peer d (some (i, .think)) ⟨Function.update d.states i x, d.arriving⟩

/-! ## With the relay -/

/-- The states of the parties, the tokens on their way from each of them to the relay and from the
relay to each of them, and what the relay has done. -/
structure Relayed (τ ε : Type u) (σ : ι → Type u) where
  states : ∀ i, σ i
  sent : ι → List τ
  arriving : ι → List τ
  done : List ε

/-- The parties have not done anything yet, nor has the relay. -/
def Relayed.start (states : ∀ i, σ i) : Relayed τ ε σ := ⟨states, fun _ => [], fun _ => [], []⟩

/-- A step of a party that is connected to the relay, or of the relay itself. -/
inductive Relayed.Step [DecidableEq ι] (parties : Parties τ σ) (r : Relay ι τ ε)
    (s : Relayed τ ε σ) : Option (ι × Action τ) → Relayed τ ε σ → Prop where
  | send {i : ι} {a : τ} {x : σ i} (h : parties i (s.states i) (.send a) x) :
      Step parties r s (some (i, .send a)) ⟨Function.update s.states i x,
        Function.update s.sent i (s.sent i ++ [a]), s.arriving, s.done⟩
  | receive {i : ι} {a : τ} {x : σ i} {rest : List τ}
      (h : parties i (s.states i) (.receive a) x) (harriving : s.arriving i = a :: rest) :
      Step parties r s (some (i, .receive a)) ⟨Function.update s.states i x,
        s.sent, Function.update s.arriving i rest, s.done⟩
  | think {i : ι} {x : σ i} (h : parties i (s.states i) .think x) :
      Step parties r s (some (i, .think))
        ⟨Function.update s.states i x, s.sent, s.arriving, s.done⟩
  | relay {e : ε} {sent : ι → List τ} (hmay : r.may (s.done ++ [e]))
      (hsent : ∀ i, s.sent i = r.takes e i ++ sent i) :
      Step parties r s none
        ⟨s.states, sent, fun i => s.arriving i ++ r.writes e i, s.done ++ [e]⟩

/-! ## Removing the relay -/

variable (r : Relay ι τ ε) (peer : ι → ι)

/-- All that the relay has taken from a party. -/
def taken (i : ι) (tr : List ε) : List τ := tr.flatMap (r.takes · i)

/-- All that the relay has written to a party. -/
def written (i : ι) (tr : List ε) : List τ := tr.flatMap (r.writes · i)

/-- What the relay has taken from a party and not yet written to its peer. -/
def held (tr : List ε) (i : ι) : List τ := (r.taken i tr).drop (r.written (peer i) tr).length

/-- The relay has written to the peer of each party a beginning of what it has taken from it. -/
def Forwarding (tr : List ε) : Prop := ∀ i, r.written (peer i) tr <+: r.taken i tr

/-- A relay that passes on what it takes, whatever it has done. -/
def Transparent : Prop := ∀ tr, r.may tr → r.Forwarding peer tr

/-- The parties without the relay. What is on its way to a party is behind the relay, inside it, or
in front of it. -/
def Relayed.direct (s : Relayed τ ε σ) : Direct τ σ where
  states := s.states
  arriving i := s.arriving i ++ r.held peer s.done (peer i) ++ s.sent (peer i)

variable {r peer}

/-- A relay that has done nothing has written nothing. -/
theorem forwarding_nil : r.Forwarding peer [] := fun _ => List.nil_prefix

/-- What was taken is what was written and what is held. -/
theorem Forwarding.written_append_held {tr : List ε} (h : r.Forwarding peer tr) (i : ι) :
    r.written (peer i) tr ++ r.held peer tr i = r.taken i tr := by
  obtain ⟨rest, hrest⟩ := h i
  rw [held, ← hrest, List.drop_left]

/-- What is held is what was taken and not written. -/
theorem held_eq {tr : List ε} {i : ι} {rest : List τ}
    (h : r.taken i tr = r.written (peer i) tr ++ rest) : r.held peer tr i = rest := by
  rw [held, h, List.drop_left]

/-- An event of the relay moves tokens through it. -/
theorem Forwarding.held_append {tr : List ε} {e : ε} (h : r.Forwarding peer tr)
    (h' : r.Forwarding peer (tr ++ [e])) (i : ι) :
    r.writes e (peer i) ++ r.held peer (tr ++ [e]) i = r.held peer tr i ++ r.takes e i := by
  have hheld := h'.written_append_held i
  simp only [written, taken, List.flatMap_append, List.flatMap_singleton] at hheld
  have htaken := h.written_append_held i
  rw [taken] at htaken
  rw [← htaken, List.append_assoc, List.append_assoc] at hheld
  exact List.append_cancel_left hheld

variable [DecidableEq ι] {parties : Parties τ σ} {s t : Relayed τ ε σ}
  {label : Option (ι × Action τ)} {labels : List (ι × Action τ)}

/-- A token that is sent to the relay comes last of those on their way to the peer. -/
theorem direct_send (hpeer : Function.Involutive peer) (s : Relayed τ ε σ) (i : ι) (a : τ)
    (x : σ i) :
    Relayed.direct r peer ⟨Function.update s.states i x,
        Function.update s.sent i (s.sent i ++ [a]), s.arriving, s.done⟩ =
      ⟨Function.update s.states i x, Function.update (s.direct r peer).arriving (peer i)
        ((s.direct r peer).arriving (peer i) ++ [a])⟩ := by
  simp only [Relayed.direct, Direct.mk.injEq, true_and]
  funext j
  by_cases hj : j = peer i
  · subst hj
    simp [hpeer i]
  · have hne : peer j ≠ i := fun heq => hj (by rw [← heq, hpeer])
    simp [hj, hne]

/-- A party that receives a token from the relay also gets it without the relay, where more may come
behind it. -/
theorem direct_receive {i : ι} {a : τ} {rest : List τ} (h : s.arriving i = a :: rest) (x : σ i) :
    ∃ rest', (s.direct r peer).arriving i = a :: rest' ∧
      Relayed.direct r peer ⟨Function.update s.states i x, s.sent,
          Function.update s.arriving i rest, s.done⟩ =
        ⟨Function.update s.states i x, Function.update (s.direct r peer).arriving i rest'⟩ := by
  refine ⟨rest ++ r.held peer s.done (peer i) ++ s.sent (peer i), by simp [Relayed.direct, h], ?_⟩
  simp only [Relayed.direct, Direct.mk.injEq, true_and]
  funext j
  by_cases hj : j = i
  · subst hj
    simp
  · simp [hj]

/-- Whatever it does next, a transparent relay forwards. -/
theorem Relayed.Step.forwarding (hr : r.Transparent peer) (hs : r.Forwarding peer s.done)
    (h : Relayed.Step parties r s label t) : r.Forwarding peer t.done := by
  cases h with
  | send | receive | think => exact hs
  | relay hmay => exact hr _ hmay

/-- The relay of a run has done nothing, or something that it may do. -/
theorem Runs.done_eq_or_may (h : Runs (Relayed.Step parties r) s labels t) :
    t.done = s.done ∨ r.may t.done := by
  induction h with
  | refl => exact .inl rfl
  | tail h hstep ih =>
    cases hstep with
    | send | receive | think => exact ih
    | relay hmay => exact .inr hmay

/-- A step of a party is one without the relay. A step of the relay itself changes nothing. -/
theorem Relayed.Step.direct (hpeer : Function.Involutive peer) (hr : r.Transparent peer)
    (hs : r.Forwarding peer s.done) (h : Relayed.Step parties r s label t) :
    Direct.Step parties peer (s.direct r peer) label (t.direct r peer) ∨
      label = none ∧ t.direct r peer = s.direct r peer := by
  cases h with
  | send hi =>
    rw [direct_send hpeer]
    exact .inl (.send hi)
  | receive hi harriving =>
    obtain ⟨rest', harriving', heq⟩ := direct_receive harriving _
    rw [heq]
    exact .inl (.receive hi harriving')
  | think hi => exact .inl (.think hi)
  | @relay e sent hmay hsent =>
    refine .inr ⟨rfl, ?_⟩
    simp only [Relayed.direct, Direct.mk.injEq, true_and]
    funext i
    have hheld := hs.held_append (hr _ hmay) (peer i)
    rw [hpeer i] at hheld
    rw [hsent (peer i), List.append_assoc (s.arriving i), hheld]
    simp only [List.append_assoc]

/-- Every run with the relay is one without it, in which the parties do the same in the same
order. -/
theorem Runs.direct (hpeer : Function.Involutive peer) (hr : r.Transparent peer)
    (hs : r.Forwarding peer s.done) (h : Runs (Relayed.Step parties r) s labels t) :
    r.Forwarding peer t.done ∧
      Runs (Direct.Step parties peer) (s.direct r peer) labels (t.direct r peer) := by
  induction h with
  | refl => exact ⟨hs, .refl⟩
  | tail h hstep ih =>
    obtain ⟨hforwarding, hruns⟩ := ih
    refine ⟨hstep.forwarding hr hforwarding, ?_⟩
    rcases hstep.direct hpeer hr hforwarding with hdirect | ⟨rfl, heq⟩
    · exact hruns.tail hdirect
    · rw [heq]
      simpa using hruns

/-! ## Putting the relay in between -/

/-- A party sends some tokens in one go. -/
inductive Sends (parties : Parties τ σ) (i : ι) (x : σ i) : List τ → σ i → Prop where
  | refl : Sends parties i x [] x
  | tail {tokens : List τ} {a : τ} {y z : σ i} (h : Sends parties i x tokens y)
      (hsend : parties i y (.send a) z) : Sends parties i x (tokens ++ [a]) z

/-- `Talks parties peer d labels words d'`: a run without the relay, in which each party has sent
its words in one go. -/
inductive Talks (parties : Parties τ σ) (peer : ι → ι) (d : Direct τ σ) :
    List (ι × Action τ) → List (ι × List τ) → Direct τ σ → Prop where
  | refl : Talks parties peer d [] [] d
  | send {labels : List (ι × Action τ)} {words : List (ι × List τ)} {d' : Direct τ σ} {i : ι}
      {word : List τ} {x : σ i} (h : Talks parties peer d labels words d')
      (hsends : Sends parties i (d'.states i) word x) :
      Talks parties peer d (labels ++ word.map fun a => (i, .send a)) (words ++ [(i, word)])
        ⟨Function.update d'.states i x,
          Function.update d'.arriving (peer i) (d'.arriving (peer i) ++ word)⟩
  | receive {labels : List (ι × Action τ)} {words : List (ι × List τ)} {d' : Direct τ σ} {i : ι}
      {a : τ} {rest : List τ} {x : σ i} (h : Talks parties peer d labels words d')
      (hreceive : parties i (d'.states i) (.receive a) x)
      (harriving : d'.arriving i = a :: rest) :
      Talks parties peer d (labels ++ [(i, .receive a)]) words
        ⟨Function.update d'.states i x, Function.update d'.arriving i rest⟩
  | think {labels : List (ι × Action τ)} {words : List (ι × List τ)} {d' : Direct τ σ} {i : ι}
      {x : σ i} (h : Talks parties peer d labels words d')
      (hthink : parties i (d'.states i) .think x) :
      Talks parties peer d (labels ++ [(i, .think)]) words
        ⟨Function.update d'.states i x, d'.arriving⟩

/-- `Passes r peer words tr`: the relay passes on one word after the other. -/
inductive Passes (r : Relay ι τ ε) (peer : ι → ι) : List (ι × List τ) → List ε → Prop where
  | nil : Passes r peer [] []
  | append {words : List (ι × List τ)} {tr es : List ε} {i : ι} {word : List τ}
      (h : Passes r peer words tr)
      (htaken : ∀ j, r.taken j es = if j = i then word else [])
      (hwritten : ∀ j, r.written j es = if j = peer i then word else []) :
      Passes r peer (words ++ [(i, word)]) (tr ++ es)

/-- Without words there is nothing to pass on. -/
theorem Passes.eq_nil {tr : List ε} (h : Passes r peer [] tr) : tr = [] := by
  generalize hwords : ([] : List (ι × List τ)) = words at h
  cases h with
  | nil => rfl
  | append => simp at hwords

/-- The last word is passed on after all others. -/
theorem Passes.exists_last {words : List (ι × List τ)} {i : ι} {word : List τ} {tr : List ε}
    (h : Passes r peer (words ++ [(i, word)]) tr) : ∃ tr₀ es, tr = tr₀ ++ es ∧
      Passes r peer words tr₀ ∧ (∀ j, r.taken j es = if j = i then word else []) ∧
      ∀ j, r.written j es = if j = peer i then word else [] := by
  generalize hwords : words ++ [(i, word)] = words' at h
  cases h with
  | nil => simp at hwords
  | @append words₀ tr₀ es i' word' h htaken hwritten =>
    obtain ⟨rfl, hlast⟩ := List.append_inj' hwords rfl
    obtain ⟨rfl, rfl⟩ : i = i' ∧ word = word' := by simpa using hlast
    exact ⟨tr₀, es, rfl, h, htaken, hwritten⟩

/-- Runs can be put together. -/
theorem Runs.trans {α β : Type u} {step : α → Option β → α → Prop} {s t u : α}
    {labels labels' : List β} (h : Runs step s labels t) (h' : Runs step t labels' u) :
    Runs step s (labels ++ labels') u := by
  induction h' with
  | refl => rwa [List.append_nil]
  | tail _ hstep ih =>
    rw [← List.append_assoc]
    exact ih.tail hstep

/-- A party that is connected to the relay sends some tokens. -/
theorem Sends.runs {i : ι} {x y : σ i} {tokens : List τ} (h : Sends parties i x tokens y)
    (hx : s.states i = x) :
    Runs (Relayed.Step parties r) s (tokens.map fun a => (i, .send a))
      ⟨Function.update s.states i y, Function.update s.sent i (s.sent i ++ tokens), s.arriving,
        s.done⟩ := by
  induction h with
  | refl =>
    subst hx
    rw [List.append_nil, Function.update_eq_self, Function.update_eq_self]
    exact .refl
  | @tail tokens a y z h hsend ih =>
    have hstep := @Relayed.Step.send _ _ _ _ _ parties r ⟨Function.update s.states i y,
      Function.update s.sent i (s.sent i ++ tokens), s.arriving, s.done⟩ i a z (by simpa using hsend)
    rw [List.map_append]
    simpa using ih.tail hstep

/-- The relay does one thing after the other. -/
theorem runs_relay {es : List ε} {sent : ι → List τ}
    (hmay : ∀ tr, tr <+: s.done ++ es → s.done.length < tr.length → r.may tr)
    (hsent : ∀ i, s.sent i = r.taken i es ++ sent i) :
    Runs (Relayed.Step parties r) s []
      ⟨s.states, sent, fun i => s.arriving i ++ r.written i es, s.done ++ es⟩ := by
  induction es generalizing s with
  | nil =>
    obtain rfl : s.sent = sent := funext hsent
    simpa [written] using Runs.refl
  | cons e es ih =>
    have hstep := @Relayed.Step.relay _ _ _ _ _ parties r s e (fun i => r.taken i es ++ sent i)
      (hmay _ (by simp) (by simp)) fun i => by rw [hsent, taken, List.flatMap_cons]; simp [taken]
    have hrest := @ih ⟨s.states, fun i => r.taken i es ++ sent i,
      fun i => s.arriving i ++ r.writes e i, s.done ++ [e]⟩
      (fun tr htr hlt => hmay tr (by simpa using htr) (by simp at hlt; omega)) fun i => rfl
    simpa [written] using (Runs.refl.tail hstep).trans hrest

/-- A run without the relay is one with it, if the relay may pass on the words in the order in which
they are sent. -/
theorem Talks.relayed {d d' : Direct τ σ}
    {words : List (ι × List τ)} (h : Talks parties peer d labels words d') {tr : List ε}
    (hpasses : Passes r peer words tr) (hmay : ∀ tr', tr' <+: tr → tr' ≠ [] → r.may tr') :
    Runs (Relayed.Step parties r) ⟨d.states, fun _ => [], d.arriving, []⟩ labels
      ⟨d'.states, fun _ => [], d'.arriving, tr⟩ := by
  induction h generalizing tr with
  | refl =>
    rw [hpasses.eq_nil]
    exact .refl
  | @send labels words d' i word x h hsends ih =>
    obtain ⟨tr₀, es, rfl, hpasses₀, htaken, hwritten⟩ := hpasses.exists_last
    have hruns := ih hpasses₀ fun tr' htr' => hmay tr' (htr'.trans (List.prefix_append tr₀ es))
    -- the word is sent, and then passed on
    have hsent := @Sends.runs _ _ _ _ r _ parties
      ⟨d'.states, fun _ => [], d'.arriving, tr₀⟩ i _ x word hsends rfl
    have hrelay := @runs_relay _ _ _ _ r _ parties
      ⟨Function.update d'.states i x, Function.update (fun _ => []) i word, d'.arriving, tr₀⟩ es
      (fun _ => []) (fun tr' htr' hlt => hmay tr' htr' (List.ne_nil_of_length_pos
        (Nat.zero_lt_of_lt hlt))) fun j => ?_
    · have harriving : (fun j => d'.arriving j ++ r.written j es) =
          Function.update d'.arriving (peer i) (d'.arriving (peer i) ++ word) := by
        funext j
        by_cases hj : j = peer i
        · subst hj
          simp [hwritten]
        · simp [hwritten, hj]
      rw [harriving] at hrelay
      simpa using (hruns.trans hsent).trans hrelay
    · by_cases hj : j = i
      · subst hj
        simp [htaken]
      · simp [htaken, hj]
  | receive h hreceive harriving ih => exact (ih hpasses hmay).tail (.receive hreceive harriving)
  | think h hthink ih => exact (ih hpasses hmay).tail (.think hthink)

end Relay
