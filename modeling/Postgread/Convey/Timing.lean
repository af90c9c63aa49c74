import Postgread.Foundations.Hastening
import Postgread.Convey.Notices
import Postgread.Convey.Opening

/-!
# Independence of timing

The order in which the messages of the two sides are read depends on when they arrive. A frontend
that does not wait for the backend has its messages read earlier: `Hastens` relates the two orders.
The main loop has one state for both sides, so it rejects what is read too early
(`completes_or_stuck`); `go_hastened` says which orders a run conveys to the end.
-/

namespace Postgread

open Body Conveyor Event

/-! ## Words that are conveyed to the end, and words that are not -/

/-- The session takes the whole word and ends with its last message. -/
inductive Completes : State → List Kind → Prop where
  | last {s : State} {k : Kind} (h : accept s k = some none) : Completes s [k]
  | next {s s' : State} {k : Kind} {ks : List Kind} (h : advance s k = some s')
      (hks : Completes s' ks) : Completes s (k :: ks)

/-- The state has no arm for the type byte of the message. -/
def State.Rejects (s : State) (k : Kind) : Prop :=
  ∀ typeByte ∈ k.type.typeByteOpt, arm k.side typeByte s = .unexpected

instance (s : State) (k : Kind) : Decidable (s.Rejects k) := by
  unfold State.Rejects
  infer_instance

/-- A message of the frontend is rejected, or the session ends before the last message. -/
inductive Stuck : State → List Kind → Prop where
  | rejected {s : State} {k : Kind} {ks : List Kind} (hside : k.side = .frontend)
      (h : s.Rejects k) : Stuck s (k :: ks)
  | early {s : State} {k : Kind} {ks : List Kind} (h : accept s k = some none) (hks : ks ≠ []) :
      Stuck s (k :: ks)
  | next {s s' : State} {k : Kind} {ks : List Kind} (h : advance s k = some s')
      (hks : Stuck s' ks) : Stuck s (k :: ks)

/-- A message without an arm is not accepted. -/
theorem accept_of_rejects {s : State} {k : Kind} (h : s.Rejects k) : accept s k = none := by
  unfold accept
  split
  · rfl
  · rename_i typeByte hbyte
    rw [h typeByte hbyte]

/-- A session ends with a message. -/
theorem Completes.ne_nil {s : State} {ks : List Kind} (h : Completes s ks) : ks ≠ [] := by
  cases h <;> simp

/-- A first message that leads on does not decide whether the session is completed. -/
theorem completes_cons_iff {s s' : State} {k : Kind} {ks : List Kind} (h : advance s k = some s') :
    Completes s (k :: ks) ↔ Completes s' ks := by
  constructor
  · intro hc
    cases hc with
    | last h' => rw [advance_eq_some.mp h] at h'; cases h'
    | next h' hks =>
      rw [h] at h'
      obtain rfl := Option.some.inj h'
      exact hks
  · exact .next h

/-- A message that ends the session must be the last one. -/
theorem completes_cons_of_last {s : State} {k : Kind} {ks : List Kind}
    (h : accept s k = some none) : Completes s (k :: ks) ↔ ks = [] := by
  constructor
  · intro hc
    cases hc with
    | last => rfl
    | next h' => rw [advance_eq_some, h] at h'; cases h'
  · rintro rfl
    exact .last h

/-- A first message that is not accepted keeps the session from being completed. -/
theorem not_completes_of_none {s : State} {k : Kind} {ks : List Kind} (h : accept s k = none) :
    ¬ Completes s (k :: ks) := by
  intro hc
  cases hc with
  | last h' => rw [h] at h'; cases h'
  | next h' => rw [advance_eq_some, h] at h'; cases h'

/-- No word is completed that gets stuck. -/
theorem Stuck.not_completes {s : State} {ks : List Kind} (h : Stuck s ks) : ¬ Completes s ks := by
  induction h with
  | rejected _ h => exact not_completes_of_none (accept_of_rejects h)
  | early h hks => rwa [completes_cons_of_last h]
  | next h _ ih => rwa [completes_cons_iff h]

/-! ## Notices in a word -/

/-- Notices in front of a word do not matter. -/
theorem completes_append_iff {s : State} {n : List Kind} (hn : ∀ k ∈ n, k.isNotice)
    {ks : List Kind} : Completes s (n ++ ks) ↔ Completes s ks := by
  induction n with
  | nil => rfl
  | cons k n ih =>
    rw [List.cons_append, completes_cons_iff (advance_of_isNotice s k (hn k List.mem_cons_self))]
    exact ih fun k' hk' => hn k' (List.mem_cons_of_mem k hk')

/-- A first message that two words share. -/
theorem eraseNotices_cons_congr (k : Kind) {ks ks' : List Kind}
    (h : eraseNotices ks' = eraseNotices ks) :
    eraseNotices (k :: ks') = eraseNotices (k :: ks) := by
  simp only [eraseNotices, List.filter_cons] at h ⊢
  rw [h]

/-- Notices in front of a word are erased. -/
theorem eraseNotices_append_of_notices {n : List Kind} (hn : ∀ k ∈ n, k.isNotice)
    (ks : List Kind) : eraseNotices (n ++ ks) = eraseNotices ks := by
  rw [eraseNotices, List.filter_append, List.filter_eq_nil_iff.mpr (by simpa using hn),
    List.nil_append, eraseNotices]

/-- A word without anything but notices. -/
theorem eraseNotices_eq_nil {ks : List Kind} : eraseNotices ks = [] ↔ ∀ k ∈ ks, k.isNotice := by
  simp [eraseNotices, List.filter_eq_nil_iff]

/-- Notices do not matter, but for one that comes last. -/
theorem completes_iff_eraseNotices {s : State} {ks : List Kind} : Completes s ks ↔
    Completes s (eraseNotices ks) ∧ ∀ k ∈ ks.getLast?, ¬ k.isNotice := by
  induction ks generalizing s with
  | nil => exact iff_of_false (fun h => h.ne_nil rfl) fun h => h.1.ne_nil rfl
  | cons k ks ih =>
    -- a first message that leads on
    have hnext {s' : State} (hk : advance s k = some s') : Completes s (k :: ks) ↔
        Completes s' (eraseNotices ks) ∧ ∀ k' ∈ (k :: ks).getLast?, ¬ k'.isNotice := by
      -- what follows decides, unless nothing follows
      rw [completes_cons_iff hk, ih]
      rcases ks with _ | ⟨k', ks⟩
      · exact iff_of_false (fun h => h.1.ne_nil rfl) fun h => h.1.ne_nil rfl
      · rw [List.getLast?_cons_cons]
    by_cases hnotice : k.isNotice
    · rw [hnext (advance_of_isNotice s k hnotice), eraseNotices, eraseNotices,
        List.filter_cons_of_neg (by simp [hnotice])]
    rw [show eraseNotices (k :: ks) = k :: eraseNotices ks from
      List.filter_cons_of_pos (by simp [hnotice])]
    rcases haccept : accept s k with _ | _ | s'
    · exact iff_of_false (not_completes_of_none haccept) fun h => not_completes_of_none haccept h.1
    · rw [completes_cons_of_last haccept, completes_cons_of_last haccept, eraseNotices_eq_nil]
      constructor
      · rintro rfl
        simp [hnotice]
      · rintro ⟨hnotices, hlast⟩
        -- the session is over, so what follows would have to be empty, and is not
        by_contra hne
        obtain ⟨k', hk'⟩ := Option.ne_none_iff_exists'.mp
          (List.getLast?_eq_none_iff.not.mpr (List.cons_ne_nil k ks))
        refine hlast k' hk' (hnotices k' ?_)
        rw [List.getLast?_cons_of_ne_nil hne] at hk'
        exact List.mem_of_getLast? hk'
    · rw [hnext (advance_eq_some.mpr haccept), completes_cons_iff (advance_eq_some.mpr haccept)]

/-! ## Words that are read in another order -/

/-- The letters that may be read earlier. -/
def Kind.isEarly (k : Kind) : Bool := k.side = .frontend

/-- Where a message of the backend leads on, every message of the frontend is rejected. Only after
the answer to an `Execute` an error and a `Sync` may come in either order. -/
theorem rejects_of_advance {s s' : State} {b f : Kind} (hb : advance s b = some s')
    (hbackend : b.isEarly = false) (hnotice : ¬ b.isNotice) (hf : f.isEarly) :
    s.Rejects f ∨
      f = .frontend .sync ∧ b = .backend .errorResponse ∧ advance s f = some .gotSync := by
  have htable := @State.advance_cases (fun s b _ => b.isEarly = false → ¬ b.isNotice →
    ∀ f ∈ Kind.all, f.isEarly → s.Rejects f ∨
      f = .frontend .sync ∧ b = .backend .errorResponse ∧ advance s f = some .gotSync)
    (by decide +kernel) _ _ _ hb
  exact htable hbackend hnotice f f.mem_all hf

/-- After `Sync` only the backend is listened to. -/
theorem gotSync_rejects {f : Kind} (hf : f.isEarly) : State.gotSync.Rejects f := by
  have hall : ∀ f ∈ Kind.all, f.isEarly → State.gotSync.Rejects f := by decide
  exact hall f f.mem_all hf

/-- `Sync` is never the last message of a session. -/
theorem accept_sync_ne_last (s : State) : accept s (.frontend .sync) ≠ some none := by
  have hall : ∀ s ∈ State.all, accept s (.frontend .sync) ≠ some none := by decide
  exact hall s s.mem_all

/-- After a `Sync` an error ends the session, and other messages of the frontend are rejected. -/
theorem stuck_gotSync {n v w' : List Kind} (hn : ∀ k ∈ n, k.isNotice) (hv : v ≠ [])
    (h : Hastens Kind.isEarly (n ++ .backend .errorResponse :: v) w') : Stuck .gotSync w' := by
  generalize hw : n ++ .backend .errorResponse :: v = w at h
  induction h generalizing n with
  | nil => simp at hw
  -- along the error and what follows it: the notices before it are kept, the error ends the session
  | @keep w w' k h ih =>
    rcases n with _ | ⟨k', n⟩
    · obtain ⟨rfl, rfl⟩ := List.cons.inj hw
      exact .early rfl (mt h.eq_nil_iff.mp hv)
    · obtain ⟨rfl, htail⟩ := List.cons.inj hw
      rw [List.forall_mem_cons] at hn
      exact .next (advance_of_isNotice _ _ hn.1) (ih hn.2 htail)
  | overtake hf => exact .rejected (by simpa [Kind.isEarly] using hf) (gotSync_rejects hf)

/-- A word consists of notices only, or has a first message that is none. -/
theorem notices_or_split (u : List Kind) : (∀ k ∈ u, k.isNotice) ∨
    ∃ n b v, u = n ++ b :: v ∧ (∀ k ∈ n, k.isNotice) ∧ ¬ b.isNotice := by
  induction u with
  | nil => exact .inl (by simp)
  | cons k u ih =>
    by_cases hk : k.isNotice
    · rcases ih with hall | ⟨n, b, v, rfl, hn, hb⟩
      · exact .inl (List.forall_mem_cons.mpr ⟨hk, hall⟩)
      · exact .inr ⟨k :: n, b, v, rfl, List.forall_mem_cons.mpr ⟨hk, hn⟩, hb⟩
    · exact .inr ⟨[], k, u, rfl, by simp, hk⟩

/-- A word whose messages of the frontend are read earlier completes the session only if they have
overtaken nothing but notices. Otherwise the session gets stuck. -/
theorem completes_or_stuck {w w' : List Kind} (h : Hastens Kind.isEarly w w') {s : State}
    (hw : Completes s w) :
    Completes s w' ∧ eraseNotices w' = eraseNotices w ∨ Stuck s w' := by
  induction h generalizing s with
  | nil => exact absurd rfl hw.ne_nil
  | @keep w w' k h ih =>
    cases hw with
    | last hlast =>
      obtain rfl : w' = [] := h.eq_nil_iff.mpr rfl
      exact .inl ⟨.last hlast, rfl⟩
    | next hk hks =>
      rcases ih hks with ⟨hcompletes, herase⟩ | hstuck
      · exact .inl ⟨.next hk hcompletes, eraseNotices_cons_congr k herase⟩
      · exact .inr (.next hk hstuck)
  | @overtake u v w' f hf hu h ih =>
    rcases notices_or_split u with hall | ⟨n, b, u, rfl, hn, hb⟩
    · -- only notices are overtaken
      rw [completes_append_iff hall] at hw
      rw [eraseNotices_append_of_notices hall]
      cases hw with
      | last hlast =>
        rw [List.append_nil] at h
        by_cases hnil : w' = []
        · subst hnil
          exact .inl ⟨.last hlast, rfl⟩
        · exact .inr (.early hlast hnil)
      | next hf' hv =>
        rcases ih ((completes_append_iff hall).mpr hv) with ⟨hcompletes, herase⟩ | hstuck
        · rw [eraseNotices_append_of_notices hall] at herase
          exact .inl ⟨.next hf' hcompletes, eraseNotices_cons_congr f herase⟩
        · exact .inr (.next hf' hstuck)
    · -- `b` is the first message that is overtaken and no notice
      refine .inr ?_
      rw [List.append_assoc, completes_append_iff hn, List.cons_append] at hw
      generalize hword : u ++ f :: v = word at hw
      cases hw with
      | last => simp at hword
      | next hb' hrest =>
        subst hword
        have hside : f.side = .frontend := by simpa [Kind.isEarly] using hf
        rcases rejects_of_advance hb' (hu b (by simp)) hb hf with hrejects | ⟨rfl, rfl, hsync⟩
        · exact .rejected hside hrejects
        · rw [List.append_assoc, List.cons_append] at h
          refine .next hsync (stuck_gotSync hn (fun hnil => ?_) h)
          obtain ⟨rfl, rfl⟩ := List.append_eq_nil_iff.mp hnil
          -- the first order would end with `Sync`, which never ends a session
          cases hrest with
          | last hlast => exact accept_sync_ne_last _ hlast
          | next _ hnone => exact hnone.ne_nil rfl

/-- The orders in which the session is still completed. -/
theorem completes_iff_of_hastens {w w' : List Kind} (h : Hastens Kind.isEarly w w') {s : State}
    (hw : Completes s w) : Completes s w' ↔
      eraseNotices w' = eraseNotices w ∧ ∀ k ∈ w'.getLast?, ¬ k.isNotice := by
  constructor
  · intro hw'
    rcases completes_or_stuck h hw with ⟨-, herase⟩ | hstuck
    · exact ⟨herase, (completes_iff_eraseNotices.mp hw').2⟩
    · exact absurd hw' hstuck.not_completes
  · rintro ⟨herase, hlast⟩
    rw [completes_iff_eraseNotices, herase]
    exact ⟨(completes_iff_eraseNotices.mp hw).1, hlast⟩

/-- A session that is completed from where a word leads. -/
theorem completes_of_advanceAll {s s' : State} {u v : List Kind} (hu : advanceAll s u = some s')
    (hv : Completes s' v) : Completes s (u ++ v) := by
  induction u generalizing s with
  | nil =>
    obtain rfl : s = s' := Option.some.inj hu
    exact hv
  | cons k u ih =>
    rw [advanceAll_cons] at hu
    obtain ⟨s₁, hk, hu⟩ := Option.bind_eq_some_iff.mp hu
    exact .next hk (ih hu)

/-! ## Runs -/

namespace Conveyor

variable {c c' c₀ c₁ : Conveyor} {s : State}

/-- The main loop is never left for another phase. -/
theorem phase_of_reaches_looping {y : Phase × Conveyor} (h : Reaches step (.looping s, c) y) :
    ∃ s', y.1 = .looping s' := by
  induction h with
  | refl => exact ⟨s, rfl⟩
  | @tail y z _ hlast ih =>
    obtain ⟨s', hs'⟩ := ih
    obtain ⟨ph, c₁⟩ := y
    obtain rfl : ph = .looping s' := hs'
    exact phase_of_stepsTo_looping hlast

/-- A run that ends well has conveyed a word that completes the session. -/
theorem completes_of_go (h : c₀.Fresh) (hreach : Reaches step (.initial, c₀) (.looping s, c))
    (hok : (go c₀).1 = .ok ⟨⟩) {ps : List Packet} (hps : Conveyed c (go c₀).2 ps) :
    Completes s (ps.map Packet.kind) := by
  obtain ⟨σ, -, -, -, -, -, hopen, -⟩ := session_of_reaches h hreach
  obtain ⟨⟨ph, c₁⟩, hrest, ⟨-, hlast⟩ | ⟨e, he, -⟩⟩ :=
    ((go_ends h.at_initial).drop hreach).exists_last
  · obtain ⟨s', hs'⟩ := phase_of_reaches_looping hrest
    obtain rfl : ph = .looping s' := hs'
    obtain ⟨us, c₂, harrives, hadvance, rfl⟩ := (reaches_looping_iff hopen).mp hrest
    obtain ⟨next, hbody, hnext⟩ := Proc.map_eq_ok.mp hlast
    obtain rfl : next = none := by simpa using hnext
    have hopen₂ := (arrives_streams hopen harrives).1.log (us.flatMap fun p => p.events σ.layers)
    obtain ⟨p, c₃, ho, haccept, hc₃⟩ := (loopBody_eq_ok hopen₂).mp hbody
    have hconveyed : Conveyed c (go c₀).2 (us ++ [p]) := by
      rw [hc₃]
      exact (conveyed_log harrives.trace_eq).trans (conveyed_of_offers ho)
    -- the packets that the run has conveyed are those that are given
    have hmessages : ps.map Packet.message = (us ++ [p]).map Packet.message :=
      List.append_cancel_left (hps.callbacks_eq.symm.trans hconveyed.callbacks_eq)
    have hkinds := congrArg (List.map Message.kind) hmessages
    rw [List.map_map, List.map_map] at hkinds
    rw [show ps.map Packet.kind = (us ++ [p]).map Packet.kind from hkinds, List.map_append]
    exact completes_of_advanceAll hadvance (.last haccept)
  · rw [hok] at he
    cases he

/-- The last packet of a session. -/
theorem go_of_last (h : c₀.Fresh) (hreach : Reaches step (.initial, c₀) (.looping s, c))
    {p : Packet} (ho : Offers c p c₁) (hlast : accept s p.kind = some none) :
    (go c₀).1 = .ok ⟨⟩ ∧ Conveyed c (go c₀).2 [p] := by
  obtain ⟨σ, -, -, -, -, -, hopen, -⟩ := session_of_reaches h hreach
  have hbody := (loopBody_eq_ok hopen).mpr ⟨p, c₁, ho, hlast, rfl⟩
  have hgo := (go_eq_iff h.at_initial).mpr
    (Ends.of_reaches hreach (.done (Proc.map_eq_ok.mpr ⟨none, hbody, rfl⟩)))
  rw [hgo]
  exact ⟨rfl, conveyed_of_offers ho⟩

/-- A packet of the frontend that is rejected is not written. -/
theorem go_of_rejects (h : c₀.Fresh) (hreach : Reaches step (.initial, c₀) (.looping s, c))
    {p : Packet} (ho : Offers c p c₁) (hside : p.kind.side = .frontend)
    (hrejects : s.Rejects p.kind) :
    (∃ typeByte, (go c₀).1 = .error (.error (.unexpectedType s .frontend typeByte))) ∧
      Event.writes (go c₀).2.trace = Event.writes c.trace := by
  obtain ⟨σ, -, -, -, -, -, hopen, -⟩ := session_of_reaches h hreach
  obtain ⟨typeByte, c₂, -, htype, hselect, -⟩ := ho
  obtain ⟨d, rfl, htrace, -⟩ := exists_of_selectTypeByte hopen hselect
  have harm : arm p.side typeByte s = .unexpected := by
    rw [← p.kind_side]
    exact hrejects typeByte (by rw [p.kind_type, htype]; rfl)
  have hstep : step (.looping s) c = (.error (.error (.unexpectedType s p.side typeByte)),
      d.log [.took p.side (σ.layers p.side) typeByte.toU8]) := by
    refine Proc.map_eq_error.mpr ?_
    rw [loopBody, Proc.bind_of_ok (readTypeByteFromBoth_eq_ok.mpr hselect)]
    simp only [harm]
    rfl
  have hgo := (go_eq_iff h.at_initial).mpr (Ends.of_reaches hreach (.halt hstep))
  rw [hgo]
  rw [p.kind_side] at hside
  refine ⟨⟨typeByte, by rw [hside]⟩, ?_⟩
  rw [trace_log, writes_append, htrace]
  exact List.append_nil _

/-- A word that arrives and completes the session is conveyed whole. -/
theorem go_of_completes (h : c₀.Fresh) (hreach : Reaches step (.initial, c₀) (.looping s, c))
    {qs : List Packet} (harrives : Arrives c qs c') (hqs : Completes s (qs.map Packet.kind)) :
    (go c₀).1 = .ok ⟨⟩ ∧ Conveyed c (go c₀).2 qs := by
  induction qs generalizing c c' s with
  | nil => exact absurd rfl hqs.ne_nil
  | cons q qs ih =>
    rw [List.map_cons] at hqs
    generalize hks : qs.map Packet.kind = ks at hqs
    cases harrives with
    | @cons _ c₁ _ _ _ ho harrives =>
      cases hqs with
      | last hlast =>
        obtain rfl := List.map_eq_nil_iff.mp hks
        exact go_of_last h hreach ho hlast
      | next hq hrest =>
        subst hks
        obtain ⟨events, hstep, -, hconveyed⟩ := exists_stepsTo_of_offers h hreach ho hq
        obtain ⟨hok, hqs⟩ := ih (hreach.tail hstep) (harrives.log events) hrest
        exact ⟨hok, hconveyed.trans hqs⟩

/-- When a word arrives that gets stuck, only a part of it is conveyed. -/
theorem go_of_stuck (h : c₀.Fresh) (hreach : Reaches step (.initial, c₀) (.looping s, c))
    {qs : List Packet} (harrives : Arrives c qs c') (hqs : Stuck s (qs.map Packet.kind)) :
    ∃ us vs, qs = us ++ vs ∧ vs ≠ [] ∧
      Event.writes (go c₀).2.trace =
        Event.writes c.trace ++ us.map (fun p => (p.side.other, p.bytes)) ∧
      ((go c₀).1 = .ok ⟨⟩ ∨
        ∃ s typeByte, (go c₀).1 = .error (.error (.unexpectedType s .frontend typeByte))) := by
  induction qs generalizing c c' s with
  | nil => cases hqs
  | cons q qs ih =>
    rw [List.map_cons] at hqs
    generalize hks : qs.map Packet.kind = ks at hqs
    cases harrives with
    | @cons _ c₁ _ _ _ ho harrives =>
      cases hqs with
      | rejected hside hrejects =>
        obtain ⟨⟨typeByte, herror⟩, hwrites⟩ := go_of_rejects h hreach ho hside hrejects
        exact ⟨[], q :: qs, rfl, by simp, by rw [hwrites]; simp, .inr ⟨s, typeByte, herror⟩⟩
      | early hlast hne =>
        obtain ⟨hok, hq⟩ := go_of_last h hreach ho hlast
        refine ⟨[q], qs, rfl, fun hnil => hne ?_, hq.writes_eq, .inl hok⟩
        rw [← hks, hnil, List.map_nil]
      | next hq hrest =>
        -- the first message leads on, and the rest gets stuck
        subst hks
        obtain ⟨events, hstep, -, hconveyed⟩ := exists_stepsTo_of_offers h hreach ho hq
        obtain ⟨us, vs, rfl, hvs, hwrites, hresult⟩ :=
          ih (hreach.tail hstep) (harrives.log events) hrest
        refine ⟨q :: us, vs, rfl, hvs, ?_, hresult⟩
        rw [hwrites, hconveyed.writes_eq, List.append_assoc]
        rfl

end Conveyor

/-! ## Two runs -/

/-- Whether the frontend sends the packet. -/
def Packet.isEarly (p : Packet) : Bool := p.side = .frontend

/-- Both sides send the same packets in the same order. -/
def KeepsOrder (ps qs : List Packet) : Prop :=
  ∀ side, qs.filter (fun p => p.side = side) = ps.filter fun p => p.side = side

/-- In front of each packet of the backend there are at least as many packets of the frontend as
there were in the first order. -/
def Causal (ps qs : List Packet) : Prop :=
  List.Forall₂ (· ≤ ·) (leads Packet.isEarly 0 ps) (leads Packet.isEarly 0 qs)

/-- Where no packet of the frontend comes later, the word is hastened. -/
theorem hastens_of_causal {ps qs : List Packet} (horder : KeepsOrder ps qs) (h : Causal ps qs) :
    Hastens Kind.isEarly (ps.map Packet.kind) (qs.map Packet.kind) := by
  have hbackend : (fun p : Packet => ! p.isEarly) = fun p => decide (p.side = .backend) := by
    funext p
    rcases hp : p.side with _ | _ <;> simp [Packet.isEarly, hp]
  have hpackets : Hastens Packet.isEarly ps qs :=
    hastens_of_leads (horder .frontend) (by rw [hbackend]; exact horder .backend) h
  exact hpackets.map fun p => by rw [Kind.isEarly, p.kind_side, Packet.isEarly]

/-- The bytes that a side gets when packets are written. -/
theorem written_of_writes {tr tr' : List Event} {ps : List Packet}
    (h : Event.writes tr' = Event.writes tr ++ ps.map fun p => (p.side.other, p.bytes))
    (side : Side) :
    written side tr' = written side tr ++ frames (ps.filter fun p => p.side = side.other) := by
  have hframes : (ps.map fun p => (p.side.other, p.bytes)).flatMap
      (fun x => if x.1 = side then x.2 else []) =
        frames (ps.filter fun p => p.side = side.other) := by
    clear h
    induction ps with
    | nil => rfl
    | cons p ps ih =>
      rw [List.map_cons, List.flatMap_cons, ih]
      obtain hp | hp := side.other.eq_or_eq_other p.side
      · rw [List.filter_cons_of_pos (by simpa using hp), frames_cons]
        simp [hp]
      · rw [List.filter_cons_of_neg (by simp [hp, (Side.other_ne side).symm])]
        simp [hp, Side.other_ne]
  rw [written, h, List.flatMap_append, hframes, written]

/-- A part of the packets is written shorter to one of the sides. -/
theorem exists_filter_ne_nil {vs : List Packet} (h : vs ≠ []) :
    ∃ side, frames (vs.filter fun p => p.side = side) ≠ [] := by
  obtain ⟨p, vs, rfl⟩ := List.exists_cons_of_ne_nil h
  refine ⟨p.side, ?_⟩
  rw [List.filter_cons_of_pos (by simp), frames_cons]
  exact List.append_ne_nil_of_left_ne_nil p.bytes_ne_nil _

/-- A word of one run that ends well, and the same packets in another order in the main loop of
another run. -/
theorem hastened_of_causal {c₀ d₀ c d d₁ : Conveyor} {ps qs : List Packet} (hfresh : c₀.Fresh)
    (hfresh' : d₀.Fresh) (hc : Reaches step (.initial, c₀) (.looping .gotStartup, c))
    (hd : Reaches step (.initial, d₀) (.looping .gotStartup, d))
    (hwrites : Event.writes d.trace = Event.writes c.trace) (hok : (go c₀).1 = .ok ⟨⟩)
    (hps : Conveyed c (go c₀).2 ps) (hqs : Arrives d qs d₁) (horder : KeepsOrder ps qs)
    (hcausal : Causal ps qs) :
    (∀ side, written side (go d₀).2.trace <+: written side (go c₀).2.trace) ∧
    (∀ halt, (go d₀).1 = .error halt →
      ∃ s typeByte, halt = .error (.unexpectedType s .frontend typeByte)) ∧
    ((go d₀).1 = .ok ⟨⟩ ∧
        (∀ side, written side (go d₀).2.trace = written side (go c₀).2.trace) ↔
      eraseNotices (qs.map Packet.kind) = eraseNotices (ps.map Packet.kind) ∧
        ∀ k ∈ (qs.map Packet.kind).getLast?, ¬ k.isNotice) := by
  have hhastens := hastens_of_causal horder hcausal
  have hcompletes := completes_of_go hfresh hc hok hps
  have hframes (side : Side) : written side (go c₀).2.trace =
      written side d.trace ++ frames (qs.filter fun p => p.side = side.other) := by
    rw [written_of_writes hps.writes_eq, horder side.other, written, written, hwrites]
  rw [← completes_iff_of_hastens hhastens hcompletes]
  -- the second run is conveyed to the end, or it gets stuck
  rcases completes_or_stuck hhastens hcompletes with ⟨hcompletes', -⟩ | hstuck
  · obtain ⟨hok', hconveyed⟩ := go_of_completes hfresh' hd hqs hcompletes'
    have heq (side : Side) : written side (go d₀).2.trace = written side (go c₀).2.trace := by
      rw [written_of_writes hconveyed.writes_eq, hframes]
    refine ⟨fun side => ?_, fun halt herror => ?_, iff_of_true ⟨hok', heq⟩ hcompletes'⟩
    · rw [heq]
    · rw [hok'] at herror
      cases herror
  · obtain ⟨us, vs, rfl, hvs, hwrites', hresult⟩ := go_of_stuck hfresh' hd hqs hstuck
    have hsplit (side : Side) : written side (go c₀).2.trace =
        written side (go d₀).2.trace ++ frames (vs.filter fun p => p.side = side.other) := by
      rw [hframes, written_of_writes hwrites', List.filter_append, frames_append, List.append_assoc]
    refine ⟨fun side => ⟨_, (hsplit side).symm⟩, fun halt herror => ?_,
      iff_of_false ?_ hstuck.not_completes⟩
    · rcases hresult with hok' | ⟨s, typeByte, hunexpected⟩
      · rw [hok'] at herror
        cases herror
      · rw [hunexpected] at herror
        exact ⟨s, typeByte, (Except.error.inj herror).symm⟩
    · -- what it leaves unread is missing on the other side
      rintro ⟨-, heq⟩
      obtain ⟨side, hne⟩ := exists_filter_ne_nil hvs
      have hside := hsplit side.other
      rw [Side.other_other, heq side.other] at hside
      exact hne (List.self_eq_append_right.mp hside)

/-- Two runs whose streams have the same opening, and then the same packets on both sides but in
another order.

The packets of the first run, which ends well, arrive in the second run in an order where those of
the frontend do not come later. The second run writes nothing else, it fails only on a message of the
frontend that its state does not expect, and it conveys both streams to the end exactly if no message
of the frontend has overtaken a message of the backend that is not a notice, nor the last one any
message.

The first run has an opening. With the same opening the second run has written the same when it comes
to the main loop, and it writes the same and ends well if the session ends before. -/
theorem go_hastened (frontend backend frontend' backend' : Stream)
    (frontendTlsServer backendTlsClient frontendTlsServer' backendTlsClient' : TlsProvider)
    (overflowChecks : Bool) :
    let c₀ := new frontend backend frontendTlsServer backendTlsClient overflowChecks
    let d₀ := new frontend' backend' frontendTlsServer' backendTlsClient' overflowChecks
    (∀ c d d₁ ps qs,
      Reaches step (.initial, c₀) (.looping .gotStartup, c) →
      Reaches step (.initial, d₀) (.looping .gotStartup, d) →
      Event.writes d.trace = Event.writes c.trace →
      (go c₀).1 = .ok ⟨⟩ → Conveyed c (go c₀).2 ps →
      Arrives d qs d₁ → KeepsOrder ps qs → Causal ps qs →
      (∀ side, written side (go d₀).2.trace <+: written side (go c₀).2.trace) ∧
      (∀ halt, (go d₀).1 = .error halt →
        ∃ s typeByte, halt = .error (.unexpectedType s .frontend typeByte)) ∧
      ((go d₀).1 = .ok ⟨⟩ ∧
          (∀ side, written side (go d₀).2.trace = written side (go c₀).2.trace) ↔
        eraseNotices (qs.map Packet.kind) = eraseNotices (ps.map Packet.kind) ∧
          ∀ k ∈ (qs.map Packet.kind).getLast?, ¬ k.isNotice)) ∧
    ((go c₀).1 = .ok ⟨⟩ →
      ∃ o f b, Opens frontend backend frontendTlsServer backendTlsClient o f b) ∧
    ∀ o f b f' b', Opens frontend backend frontendTlsServer backendTlsClient o f b →
      Opens frontend' backend' frontendTlsServer' backendTlsClient' o f' b' →
      (o.StartsUp → ∃ c d, Reaches step (.initial, c₀) (.looping .gotStartup, c) ∧
        Reaches step (.initial, d₀) (.looping .gotStartup, d) ∧
        Event.writes d.trace = Event.writes c.trace ∧
        c.frontend.stream = f ∧ c.backend.stream = b ∧
        d.frontend.stream = f' ∧ d.backend.stream = b') ∧
      (¬ o.StartsUp → (go c₀).1 = .ok ⟨⟩ ∧ (go d₀).1 = .ok ⟨⟩ ∧
        Event.writes (go d₀).2.trace = Event.writes (go c₀).2.trace) := by
  intro c₀ d₀
  refine ⟨fun c d d₁ ps qs => hastened_of_causal (fresh_new _ _ _ _ _) (fresh_new _ _ _ _ _),
    exists_opens, fun o f b f' b' ho ho' => ?_⟩
  have hopened := opened_of_opens ho overflowChecks
  have hopened' := opened_of_opens ho' overflowChecks
  refine ⟨fun hstarts => ?_, fun hends => ?_⟩
  · obtain ⟨c, hc, hf, hb, hwrites⟩ := hopened.startsUp hstarts
    obtain ⟨d, hd, hf', hb', hwrites'⟩ := hopened'.startsUp hstarts
    exact ⟨c, d, hc, hd, hwrites'.trans hwrites.symm, hf, hb, hf', hb'⟩
  · obtain ⟨hok, hwrites⟩ := hopened.ends hends
    obtain ⟨hok', hwrites'⟩ := hopened'.ends hends
    exact ⟨hok, hok', hwrites'.trans hwrites.symm⟩

namespace Packet

/-- An unnamed statement without text. -/
def parse : Packet where
  type := .frontend .parse
  body := [0, 0, 0, 0]
  msg := _
  fits := by decide
  decodes := rfl

/-- The answer of the backend to a statement that it has prepared. -/
def parseComplete : Packet where
  type := .backend .parseComplete
  body := []
  msg := _
  fits := by decide
  decodes := rfl

/-- The frontend says good-bye. -/
def terminate : Packet where
  type := .frontend .terminate
  body := []
  msg := _
  fits := by decide
  decodes := rfl

end Packet

/-- A frontend that prepares a statement and terminates after the answer. -/
def patient : List Packet := conversation [.parse, .parseComplete, .terminate]

/-- The same frontend when it does not wait for the answer. -/
def impatient : List Packet := conversation [.parse, .terminate, .parseComplete]

/-- A backend that has something to say before the frontend asks. -/
def noticed : List Packet := conversation [.emptyNotice, .parse, .parseComplete, .terminate]

/-- The same backend when the frontend does not wait for it. -/
def overtaken : List Packet := conversation [.parse, .emptyNotice, .parseComplete, .terminate]

/-- The message of the frontend has overtaken nothing but a notice. Both runs open with a start-up
packet. -/
theorem go_notice_overtaken :
    ((go (inOrder overtaken)).1 = .ok ⟨⟩ ∧ ∀ side, written side (go (inOrder overtaken)).2.trace =
      written side (go (inOrder noticed)).2.trace) ∧
    ∃ c d, Reaches step (.initial, inOrder noticed) (.looping .gotStartup, c) ∧
      Reaches step (.initial, inOrder overtaken) (.looping .gotStartup, d) ∧
      Event.writes d.trace = Event.writes c.trace := by
  obtain ⟨c, c', hc, htrace, hps, -⟩ := @exists_arrives_inOrder noticed (by decide)
  obtain ⟨d, d', hd, htrace', hqs, -⟩ := @exists_arrives_inOrder overtaken (by decide)
  have hcompletes : Completes .gotStartup (noticed.map Packet.kind) :=
    @completes_of_advanceAll _ .readyForQuery (noticed.dropLast.map Packet.kind)
      [.frontend .terminate] (by decide) (.last rfl)
  obtain ⟨hok, hconveyed⟩ := go_of_completes (fresh_new _ _ _ _ _) hc hps hcompletes
  have horder : KeepsOrder noticed overtaken := by rintro (_ | _) <;> rfl
  have hcausal : Causal noticed overtaken :=
    .cons (by decide) (.cons (by decide) (.cons (by decide) (.cons (by decide)
      (.cons (by decide) .nil))))
  have hsettling : Packet.startup.IsSettling := Packet.isSettling_of_message rfl (by rintro ⟨⟩)
  unfold inOrder arrangedConveyor at hc hd ⊢
  have hgo := go_hastened (readyBytes Packet.startup.bytes ++ arranged .frontend noticed)
    (arranged .backend noticed) (readyBytes Packet.startup.bytes ++ arranged .frontend overtaken)
    (arranged .backend overtaken) .ok .ok .ok .ok true
  refine ⟨(hgo.1 c d d' noticed overtaken hc hd (by rw [htrace, htrace']) hok hconveyed hqs horder
    hcausal).2.2.mpr ⟨by decide, by decide⟩, ?_⟩
  -- the streams that are left do not matter here
  obtain ⟨c, d, hc, hd, hwrites, -⟩ := (hgo.2.2 _ _ _ _ _
    (.plain hsettling (brings_readyBytes _ _)) (.plain hsettling (brings_readyBytes _ _))).1 ⟨_, rfl⟩
  exact ⟨c, d, hc, hd, hwrites⟩

/-- A conversation that is conveyed to the end is rejected when the frontend does not wait. -/
theorem impatient_rejected :
    (∃ c c' d d', Reaches step (.initial, inOrder patient) (.looping .gotStartup, c) ∧
      Reaches step (.initial, inOrder impatient) (.looping .gotStartup, d) ∧
      Event.writes d.trace = Event.writes c.trace ∧
      Arrives c patient c' ∧ c'.bytesLeft = 0 ∧ Arrives d impatient d' ∧ d'.bytesLeft = 0) ∧
    (∀ side, Script.tokens ((inOrder impatient).wrap side).stream =
      Script.tokens ((inOrder patient).wrap side).stream) ∧
    KeepsOrder patient impatient ∧ Causal patient impatient ∧
    (go (inOrder patient)).1 = .ok ⟨⟩ ∧ (go (inOrder patient)).2.bytesLeft = 0 ∧
    (go (inOrder impatient)).1 =
      .error (.error (.unexpectedType .gotPreparedStatement .frontend .terminate)) := by
  obtain ⟨c, c', hc, htrace, harrives, hleft⟩ := @exists_arrives_inOrder patient (by decide)
  obtain ⟨d, d', hd, htrace', harrives', hleft'⟩ := @exists_arrives_inOrder impatient (by decide)
  refine ⟨⟨c, c', d, d', hc, hd, ?_, harrives, hleft, harrives', hleft'⟩, ?_, ?_, ?_, ?_⟩
  · rw [htrace, htrace']
  · rintro (_ | _) <;> rfl
  · rintro (_ | _) <;> rfl
  · exact .cons (by decide) (.cons (by decide) (.cons (by decide) (.cons (by decide) .nil)))
  · exact ⟨by decide +kernel, by decide +kernel, by decide +kernel⟩

end Postgread
