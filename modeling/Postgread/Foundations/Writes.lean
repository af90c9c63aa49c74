import Postgread.Foundations.Iterate

/-!
# Polled writes, and runs that a failing write cuts short

`writeAll` is the loop that offers a buffer to an asynchronous writer until all of it is accepted. It
stands for a function that programs import from a library (`write_all`), and follows its
documentation: a writer that accepts nothing of a buffer that is not empty is an error.

A program that writes can be described twice: with writes that always succeed, or on a device that
may take a part of the output and fail. `Cuts` relates the two descriptions. The second run is the
first one, performed on the device up to the first event that fails. Its rules follow the ways to
build a procedure, so that two descriptions of one program are related by going through its text.
-/

universe u

variable {τ ε σ δ η φ α β : Type u}

/-! ## Writing a buffer -/

/-- What one poll of a write answers. A writer accepts as many tokens as it says, or all that it was
offered if they are fewer. -/
inductive WritePoll (ε : Type u) where
  | pending
  | accepted (n : ℕ)
  | error (e : ε)
deriving DecidableEq, Repr

/-- The answers to the successive polls of one writer. -/
abbrev WriteScript (ε : Type u) := List (WritePoll ε)

/-- Error types with a value for a writer that accepts nothing. -/
class WriteZero (ε : Type u) where
  writeZero : ε

/-- Offer tokens until all are accepted. The result holds the way the loop ended, the tokens that were
accepted and the rest of the script. -/
def writeAll [WriteZero ε] : WriteScript ε → List τ →
    Except (Halt ε) PUnit.{u + 1} × List τ × WriteScript ε
  | s, [] => (.ok ⟨⟩, [], s)
  | [], _ :: _ => (.error .waiting, [], [])
  | .pending :: s, head :: tail => writeAll s (head :: tail)
  | .accepted 0 :: s, _ :: _ => (.error (.error WriteZero.writeZero), [], s)
  | .accepted (n + 1) :: s, head :: tail =>
    let (result, sent, rest) := writeAll s (tail.drop n)
    (result, head :: tail.take n ++ sent, rest)
  | .error e :: s, _ :: _ => (.error (.error e), [], s)

section WriteAll

variable [WriteZero ε]

/-- What is accepted of a buffer is a beginning of it, and all of it if and only if the loop
succeeds. -/
theorem writeAll_sent (s : WriteScript ε) (tokens : List τ) :
    (writeAll s tokens).2.1 <+: tokens ∧
      ((writeAll s tokens).1 = .ok ⟨⟩ ↔ (writeAll s tokens).2.1 = tokens) := by
  fun_induction writeAll s tokens with
  | case1 => simp
  | case2 => simp
  | case3 s head tail ih => exact ih
  | case4 => simp
  | case5 n s head tail result sent rest heq ih =>
    rw [heq] at ih
    obtain ⟨hpre, hresult⟩ := ih
    have htail : tail.take n ++ tail.drop n = tail := List.take_append_drop n tail
    refine ⟨?_, ?_⟩
    · rw [List.cons_append, List.cons_prefix_cons]
      refine ⟨rfl, ?_⟩
      calc tail.take n ++ sent <+: tail.take n ++ tail.drop n := List.prefix_append_right_inj _ |>.mpr hpre
        _ = tail := htail
    · rw [hresult, List.cons_append, List.cons_inj_right]
      constructor
      · rintro rfl
        exact htail
      · intro h
        exact List.append_cancel_left (h.trans htail.symm)
  | case6 => simp

/-- Writing fails only with an error of the writer, or waits. -/
theorem writeAll_error_cases {s rest : WriteScript ε} {tokens sent : List τ} {h : Halt ε}
    (hwrite : writeAll s tokens = (.error h, sent, rest)) : h = .waiting ∨ ∃ e, h = .error e := by
  fun_induction writeAll s tokens generalizing sent rest with
  | case1 => simp at hwrite
  | case2 => simp_all
  | case3 s head tail ih => exact ih hwrite
  | case4 =>
    simp only [Prod.mk.injEq, Except.error.injEq] at hwrite
    exact .inr ⟨_, hwrite.1.symm⟩
  | case5 n s head tail result sent' rest' heq ih =>
    obtain ⟨rfl, rfl, rfl⟩ : result = .error h ∧ head :: tail.take n ++ sent' = sent ∧
        rest' = rest := by simpa using hwrite
    exact ih heq
  | case6 =>
    simp only [Prod.mk.injEq, Except.error.injEq] at hwrite
    exact .inr ⟨_, hwrite.1.symm⟩

end WriteAll

/-! ## Runs on a device -/

/-- The state of a device after an event, or why the event failed and what of it took place. -/
abbrev Device (δ ε η : Type u) := η → δ → Except (Halt ε × η) δ

/-- Perform events one after the other, up to the first that fails. -/
def replay (device : Device δ ε η) : List η → δ → Except (Halt ε) δ × List η
  | [], d => (.ok d, [])
  | e :: events, d =>
    match device e d with
    | .ok d' => let (result, done) := replay device events d'; (result, e :: done)
    | .error (halt, part) => (.error halt, [part])

/-- A procedure on the first part of a state. -/
def Proc.onFst (x : Proc σ ε α) : Proc (σ × δ) ε α := fun (s, d) => ((x s).1, (x s).2, d)

/-- `x'` does on a device what `x` does, up to the first event that fails. Then it ends with the halt
of the device. -/
def Cuts (device : Device δ ε η) (trace : σ → List η) (x : Proc σ (Halt ε) α)
    (x' : Proc (σ × δ) (Halt ε) α) : Prop :=
  ∀ s d, ∃ events, trace (x s).2 = trace s ++ events ∧
    match replay device events d with
    | (.ok d', _) => x' (s, d) = ((x s).1, (x s).2, d')
    | (.error halt, done) => ∃ s' d', x' (s, d) = (.error halt, s', d') ∧
      trace s' = trace s ++ done

section Device

variable {device : Device δ ε η} {trace : σ → List η}

/-- Either everything was performed, or all up to some event and a part of this event. -/
theorem replay_cases (events : List η) (d : δ) :
    (∃ d', replay device events d = (.ok d', events)) ∨
      ∃ before e after d' halt part, events = before ++ e :: after ∧
        replay device before d = (.ok d', before) ∧ device e d' = .error (halt, part) ∧
        replay device events d = (.error halt, before ++ [part]) := by
  induction events generalizing d with
  | nil => exact .inl ⟨d, rfl⟩
  | cons e events ih =>
    rcases h : device e d with ⟨halt, part⟩ | d'
    · exact .inr ⟨[], e, events, d, halt, part, rfl, rfl, h, by simp [replay, h]⟩
    rcases ih d' with ⟨d₁, hall⟩ | ⟨before, e₁, after, d₁, halt, part, hevents, hbefore, he, hcut⟩
    · exact .inl ⟨d₁, by simp [replay, h, hall]⟩
    · refine .inr ⟨e :: before, e₁, after, d₁, halt, part, by rw [hevents]; rfl, ?_, he, ?_⟩
      · simp [replay, h, hbefore]
      · simp [replay, h, hcut]

/-- Events that succeed are followed by the others. -/
theorem replay_append_of_ok {events : List η} {d d' : δ} {done : List η}
    (h : replay device events d = (.ok d', done)) (events' : List η) :
    replay device (events ++ events') d =
      ((replay device events' d').1, events ++ (replay device events' d').2) := by
  induction events generalizing d done with
  | nil =>
    obtain ⟨hd, -⟩ := Prod.mk.injEq .. ▸ h
    rw [Except.ok.inj hd]
    rfl
  | cons e events ih =>
    rcases he : device e d with ⟨halt, part⟩ | d₁
    · simp [replay, he] at h
    · rcases hrest : replay device events d₁ with ⟨result, done'⟩
      simp only [replay, he, hrest, Prod.mk.injEq] at h
      obtain ⟨rfl, -⟩ := h
      simp only [List.cons_append, replay, he, ih hrest]

/-- After an event that fails nothing more is performed. -/
theorem replay_append_of_error {events : List η} {d : δ} {halt : Halt ε} {done : List η}
    (h : replay device events d = (.error halt, done)) (events' : List η) :
    replay device (events ++ events') d = (.error halt, done) := by
  induction events generalizing d done with
  | nil => cases congrArg Prod.fst h
  | cons e events ih =>
    rcases he : device e d with ⟨halt', part⟩ | d₁
    · simp only [replay, he, List.cons_append] at h ⊢
      exact h
    · rcases hrest : replay device events d₁ with ⟨result, done'⟩
      simp only [replay, he, hrest, Prod.mk.injEq] at h
      obtain ⟨rfl, rfl⟩ := h
      simp only [List.cons_append, replay, he, ih hrest]

namespace Cuts

/-- What writes nothing is cut nowhere. -/
theorem pure (a : α) : Cuts device trace (Pure.pure a) (Pure.pure a) :=
  fun _ _ => ⟨[], (List.append_nil _).symm, rfl⟩

/-- A failure is the same on any device. -/
theorem fail (e : Halt ε) : Cuts device trace (α := α) (Proc.fail e) (Proc.fail e) :=
  fun _ _ => ⟨[], (List.append_nil _).symm, rfl⟩

/-- What the device does not notice is done as it is. -/
theorem onFst {x : Proc σ (Halt ε) α} (hx : ∀ s, ∃ events, trace (x s).2 = trace s ++ events ∧
    ∀ e ∈ events, ∀ d, device e d = .ok d) : Cuts device trace x x.onFst := by
  intro s d
  obtain ⟨events, htrace, hsilent⟩ := hx s
  have hreplay : replay device events d = (.ok d, events) := by
    clear htrace
    induction events with
    | nil => rfl
    | cons e events ih =>
      obtain ⟨he, hevents⟩ := List.forall_mem_cons.mp hsilent
      simp only [replay, he d, ih hevents]
  refine ⟨events, htrace, ?_⟩
  rw [hreplay]
  rfl

/-- Parts that are cut alike are cut alike one after the other: after a write that fails the second
part is not run. -/
theorem bind {x : Proc σ (Halt ε) α} {x' : Proc (σ × δ) (Halt ε) α} {f : α → Proc σ (Halt ε) β}
    {f' : α → Proc (σ × δ) (Halt ε) β} (hx : Cuts device trace x x')
    (hf : ∀ a, Cuts device trace (f a) (f' a)) : Cuts device trace (x >>= f) (x' >>= f') := by
  intro s d
  obtain ⟨events, htrace, hcut⟩ := hx s d
  rcases h : x s with ⟨e | a, s'⟩
  · rw [h] at htrace hcut
    refine ⟨events, by rw [Proc.bind_of_error h]; exact htrace, ?_⟩
    rcases hreplay : replay device events d with ⟨halt | d', done⟩
    · rw [hreplay] at hcut
      obtain ⟨s'', d', hx', hs''⟩ := hcut
      exact ⟨s'', d', Proc.bind_of_error hx', hs''⟩
    · rw [hreplay] at hcut
      simp only [Proc.bind_of_error h]
      exact Proc.bind_of_error hcut
  rw [h] at htrace hcut
  rw [Proc.bind_of_ok h]
  rcases hreplay : replay device events d with ⟨halt | d', done⟩
  · -- the device fails in the first part
    rw [hreplay] at hcut
    obtain ⟨s'', d', hx', hs''⟩ := hcut
    obtain ⟨events', htrace', -⟩ := hf a s' d
    refine ⟨events ++ events', by rw [htrace', htrace, List.append_assoc], ?_⟩
    rw [replay_append_of_error hreplay]
    exact ⟨s'', d', Proc.bind_of_error hx', hs''⟩
  · rw [hreplay] at hcut
    obtain ⟨events', htrace', hcut'⟩ := hf a s' d'
    refine ⟨events ++ events', by rw [htrace', htrace, List.append_assoc], ?_⟩
    rw [replay_append_of_ok hreplay, Proc.bind_of_ok hcut]
    rcases hreplay' : replay device events' d' with ⟨halt | d'', done'⟩
    · rw [hreplay'] at hcut'
      obtain ⟨s'', d'', hf', hs''⟩ := hcut'
      exact ⟨s'', d'', hf', by rw [hs'', htrace, List.append_assoc]⟩
    · rw [hreplay'] at hcut'
      exact hcut'

/-- Renaming the result does not change where a run is cut. -/
theorem map {x : Proc σ (Halt ε) α} {x' : Proc (σ × δ) (Halt ε) α} (f : α → β)
    (hx : Cuts device trace x x') : Cuts device trace (f <$> x) (f <$> x') := by
  rw [← bind_pure_comp, ← bind_pure_comp]
  exact hx.bind fun _ => pure _

/-- A loop is cut where one of its rounds is. -/
theorem iterate {step : φ → Proc σ (Halt ε) (Option φ)}
    {step' : φ → Proc (σ × δ) (Halt ε) (Option φ)}
    (hstep : ∀ a, Cuts device trace (step a) (step' a)) (fuel : ℕ) (a : φ) :
    Cuts device trace (iterate step fuel a) (iterate step' fuel a) := by
  induction fuel generalizing a with
  | zero => exact .fail _
  | succ fuel ih =>
    refine (hstep a).bind fun next => ?_
    rcases next with _ | b
    · exact .pure _
    · exact ih b

end Cuts

end Device
