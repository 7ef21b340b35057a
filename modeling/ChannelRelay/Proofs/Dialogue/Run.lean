import ChannelRelay.Server.Respond

/-!
# Running operations

How an operation runs in its surroundings, one equation for each way to put operations
together and one for each call.  With these an operation is run step by step, and no proof
has to open the dialogue that it is.

A run under a deadline that is not reached is a run without one (`run_of_runUntil`).
-/

namespace ChannelRelay

namespace Dialogue

variable {α β σ : Type}

theorem run_bind (answer : (c : Call) → σ → c.Answer × σ) (d : Dialogue α)
    (f : α → Dialogue β) (s : σ) :
    (d.bind f).run answer s = (f (d.run answer s).1).run answer (d.run answer s).2 := by
  induction d generalizing s with
  | done a => rfl
  | ask call next ih => exact ih _ _

/-- If no call is left unanswered, the run is the one where every call is answered. -/
theorem run_of_runUntil {answer : (c : Call) → σ → c.Answer × σ}
    {answer? : (c : Call) → σ → Option c.Answer × σ}
    (hagree : ∀ call s, (answer? call s).2 = (answer call s).2 ∧
      ∀ a, (answer? call s).1 = some a → a = (answer call s).1)
    {d : Dialogue α} {s : σ} {a : α} (h : (d.runUntil answer? s).1 = some a) :
    d.run answer s = (a, (d.runUntil answer? s).2) := by
  induction d generalizing s with
  | done b =>
      obtain rfl := Option.some.inj h
      rfl
  | ask call next ih =>
      obtain ⟨hstate, hanswer⟩ := hagree call s
      rw [runUntil] at h ⊢
      cases hfirst : (answer? call s).1 with
      | none =>
          rw [hfirst] at h
          exact absurd h (by simp)
      | some b =>
          -- An answer in time is the answer, so both runs go on from the same state.
          obtain rfl := hanswer b hfirst
          rw [hfirst] at h
          rw [run, ← hstate]
          exact ih _ h

end Dialogue

namespace Surroundings

variable {α β : Type}

theorem answerInTime_agrees (call : Call) (s : Surroundings) :
    (answerInTime call s).2 = (answer call s).2 ∧
      ∀ a, (answerInTime call s).1 = some a → a = (answer call s).1 := by
  refine ⟨rfl, fun a h => ?_⟩
  unfold answerInTime at h
  split at h
  · exact absurd h (by simp)
  · exact (Option.some.inj h).symm

/-- A scripted chat service stays one. -/
theorem directory_answer {s : Surroundings} (hchat : ∃ d, s.chat = .directory d) (call : Call) :
    ∃ d, (answer call s).2.chat = .directory d := by
  obtain ⟨d, hd⟩ := hchat
  cases call with
  | listChannels => exact ⟨d, by simp [answer, hd, Chat.listChannels]⟩
  | post channel channelName payload =>
      exact ⟨{ d with results := d.results.drop 1 }, by simp [answer, hd, Chat.post]⟩
  | conversation id => exact ⟨d, by simp [answer, hd, Chat.conversation]⟩
  | _ => exact ⟨d, hd⟩

/-- A scripted chat service takes no time, so no deadline is reached. -/
theorem inTime_of_directory {d : Dialogue α} {s : Surroundings}
    (hchat : ∃ d, s.chat = .directory d) : (d.runUntil answerInTime s).1.isSome := by
  induction d generalizing s with
  | done a => rfl
  | ask call next ih =>
      have hnext := directory_answer hchat call
      obtain ⟨d, hd⟩ := hnext
      have hanswer : (answerInTime call s).1 = some (answer call s).1 := by
        simp [answerInTime, hd, Chat.isExpired]
      rw [Dialogue.runUntil, hanswer]
      exact ih _ ⟨d, hd⟩

/-! ## Ways to put operations together -/

/-- What comes after an operation goes on from its result; an error is the end. -/
theorem perform_bind (x : Operation α) (f : α → Operation β) (s : Surroundings) :
    s.perform (x >>= f) =
      match s.perform x with
      | (.ok a, s') => s'.perform (f a)
      | (.error e, s') => (.error e, s') := by
  refine (Dialogue.run_bind answer x.run _ s).trans ?_
  unfold perform
  obtain ⟨result, s'⟩ := Dialogue.run answer x.run s
  cases result with
  | ok a => rfl
  | error e => rfl

theorem perform_map (f : α → β) (x : Operation α) (s : Surroundings) :
    s.perform (f <$> x) = ((s.perform x).1.map f, (s.perform x).2) := by
  refine (Dialogue.run_bind answer x.run _ s).trans ?_
  unfold perform
  obtain ⟨result, s'⟩ := Dialogue.run answer x.run s
  cases result with
  | ok a => rfl
  | error e => rfl

theorem perform_bind_pure (x : Operation α) (f : α → β) (s : Surroundings) :
    s.perform (x >>= fun a => pure (f a)) = ((s.perform x).1.map f, (s.perform x).2) := by
  rw [perform_bind]
  obtain ⟨result, s'⟩ := s.perform x
  cases result with
  | ok a => rfl
  | error e => rfl

/-- An error is handled in the surroundings that it leaves. -/
theorem perform_tryCatch (x : Operation α) (handler : RelayError → Operation α)
    (s : Surroundings) :
    s.perform (tryCatch x handler) =
      match s.perform x with
      | (.ok a, s') => (.ok a, s')
      | (.error e, s') => s'.perform (handler e) := by
  refine (Dialogue.run_bind answer x.run _ s).trans ?_
  unfold perform
  obtain ⟨result, s'⟩ := Dialogue.run answer x.run s
  cases result with
  | ok a => rfl
  | error e => rfl

/-! ## Calls -/

theorem perform_attempt {ε : Type} (failure : ε → RelayError) (d : Dialogue (Except ε α))
    (s : Surroundings) :
    s.perform (Operation.attempt failure d) =
      ((d.run answer s).1.mapError failure, (d.run answer s).2) := by
  refine (Dialogue.run_bind answer d _ s).trans ?_
  obtain ⟨result, s'⟩ := Dialogue.run answer d s
  cases result with
  | ok a => rfl
  | error e => rfl

theorem perform_query (name : String) (s : Surroundings) :
    s.perform (Operation.query name) =
      ((s.store.query name).1.mapError .store, { s with store := (s.store.query name).2 }) :=
  perform_attempt _ _ s

theorem perform_post (channel channelName : String) (payload : Json.Members)
    (s : Surroundings) :
    s.perform (Operation.post channel channelName payload) =
      ((s.chat.post channel channelName payload).1.mapError .slack,
        { s with
          chat := (s.chat.post channel channelName payload).2
          posted := ⟨channel, channelName, payload⟩ :: s.posted }) :=
  perform_attempt _ _ s

theorem perform_conversation (id : String) (s : Surroundings) :
    s.perform (Operation.conversation id) =
      ((s.chat.conversation id).1.mapError .slack,
        { s with chat := (s.chat.conversation id).2 }) :=
  perform_attempt _ _ s

theorem perform_count (family : Family) (value : String) (s : Surroundings) :
    s.perform (Operation.count family value) =
      (.ok (), { s with metrics := s.metrics.count family value }) := rfl

end Surroundings

namespace Server

variable {α : Type}

/-- An operation that answers failures too ends in the response of its result. -/
theorem run_settled (operation : Operation Response) (s : Surroundings) :
    (settled operation).run Surroundings.answer s =
      match s.perform operation with
      | (.ok response, s') => (response, s')
      | (.error e, s') => (e.response, s') := by
  refine (Dialogue.run_bind _ operation.run _ s).trans ?_
  unfold Surroundings.perform
  obtain ⟨result, s'⟩ := Dialogue.run Surroundings.answer operation.run s
  cases result with
  | ok response => rfl
  | error e => rfl

/-- Answering a failure changes nothing. -/
theorem run_settled_snd (operation : Operation Response) (s : Surroundings) :
    ((settled operation).run Surroundings.answer s).2 = (s.perform operation).2 := by
  rw [run_settled]
  obtain ⟨result, s'⟩ := s.perform operation
  cases result with
  | ok response => rfl
  | error e => rfl

/-- After a first part that succeeds, the rest is answered. -/
theorem run_settled_of_ok {x : Operation α} {f : α → Operation Response} {s s' : Surroundings}
    {a : α} (h : s.perform x = (.ok a, s')) :
    (settled (x >>= f)).run Surroundings.answer s =
      (settled (f a)).run Surroundings.answer s' := by
  rw [run_settled, Surroundings.perform_bind, h, run_settled]

/-- The failure of a first part is the answer. -/
theorem run_settled_of_error {x : Operation α} {f : α → Operation Response}
    {s s' : Surroundings} {e : RelayError} (h : s.perform x = (.error e, s')) :
    (settled (x >>= f)).run Surroundings.answer s = (e.response, s') := by
  rw [run_settled, Surroundings.perform_bind, h]

end Server

end ChannelRelay
