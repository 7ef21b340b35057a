import ChannelRelay.Slack.Client

/-!
# Attempts at a request

A request is sent again while the server's answer is retryable and retries are left, and it is
always the same request that arrives.  Over an open wire one attempt counts: the first that is not
retryable, or the last that is allowed (`send_of_settles`).  Where every attempt meets the same
answer, their number depends on the answer only (`send_of_repeats`).
-/

namespace ChannelRelay

namespace ServerStep

/-- The steps after which another attempt may end better. -/
inductive Retryable : ServerStep → Prop where
  | closed : Retryable .close
  | hung : Retryable .hang
  | answered {status : Nat} {body : Body}
      (h : (500 ≤ status ∧ status ≤ 599) ∨ status = 408 ∨ status = 429) :
      Retryable (.answer status body)

theorem isTransient_attempt_iff {step : ServerStep} :
    step.attempt.isTransient = true ↔ step.Retryable := by
  cases step with
  | close => exact iff_of_true rfl .closed
  | hang => exact iff_of_true rfl .hung
  | answer status body =>
      have hstatus : (answer status body).attempt.isTransient = true ↔
          (500 ≤ status ∧ status ≤ 599) ∨ status = 408 ∨ status = 429 := by
        simp [attempt, Attempt.isTransient, Status.isTransient, Status.isServerError, or_assoc]
      rw [hstatus]
      constructor
      · exact Retryable.answered
      · intro hretryable
        cases hretryable with
        | answered h => exact h

end ServerStep

namespace Wire

variable {retries : Nat} {request : Outgoing} {w : Wire} {step : ServerStep}

/-- The server is reached, and nobody stops waiting for it. -/
def IsOpen (w : Wire) : Prop :=
  w.link = .up ∧ w.deadline = none

/-- Attempts at a request were made: each took a step of the script, and the request arrived. -/
def Took (count : Nat) (request : Outgoing) (w w' : Wire) : Prop :=
  w'.IsOpen ∧ w'.script = w.script.drop count ∧
    w'.received = List.replicate count request ++ w.received

theorem Took.trans {m n : Nat} {w₁ w₂ : Wire} (hfirst : w.Took m request w₁)
    (hrest : w₁.Took n request w₂) : w.Took (m + n) request w₂ := by
  obtain ⟨-, hscript, hreceived⟩ := hfirst
  obtain ⟨hopen, hscript', hreceived'⟩ := hrest
  refine ⟨hopen, ?_, ?_⟩
  · rw [hscript', hscript, List.drop_drop]
  · rw [hreceived', hreceived, ← List.append_assoc, List.replicate_append_replicate, Nat.add_comm]

/-- The step that the server takes when `n` requests have arrived from now on. -/
def stepAfter (w : Wire) (n : Nat) : ServerStep :=
  (w.script.drop n).headD .exhausted

/-- After `vain` attempts the next one counts: all before it met retryable steps, and it does so
itself only if no retries are left. -/
structure Settles (retries vain : Nat) (w : Wire) : Prop where
  allowed : vain ≤ retries
  earlier : ∀ i < vain, (w.stepAfter i).Retryable
  final : vain < retries → ¬ (w.stepAfter vain).Retryable

/-- How many attempts are made at a request that is always answered alike. -/
def attempts (retries : Nat) (step : ServerStep) : Nat :=
  if step.attempt.isTransient then retries + 1 else 1

theorem attempts_pos (retries : Nat) (step : ServerStep) : 0 < attempts retries step := by
  unfold attempts
  split
  · exact Nat.succ_pos _
  · exact Nat.one_pos

/-- The next attempts all meet the same step. -/
def Repeats (count : Nat) (step : ServerStep) (w : Wire) : Prop :=
  ∀ i < count, (w.script.drop i).headD .exhausted = step

theorem attempt_of_isOpen (timeout : Nat) (request : Outgoing) (hopen : w.IsOpen) :
    (w.attempt timeout request).1 = (w.script.headD .exhausted).attempt ∧
      w.Took 1 request (w.attempt timeout request).2 := by
  obtain ⟨hlink, hdeadline⟩ := hopen
  unfold attempt
  rw [hlink]
  exact ⟨rfl, ⟨rfl, hdeadline⟩, rfl, rfl⟩

theorem isExpired_of_isOpen (hopen : w.IsOpen) : w.isExpired = false := by
  rw [isExpired, hopen.2]

theorem stepAfter_of_took {count : Nat} {w' : Wire} (htook : w.Took count request w') (n : Nat) :
    w'.stepAfter n = w.stepAfter (count + n) := by
  rw [stepAfter, stepAfter, htook.2.1, List.drop_drop]

/-! ## The attempt that counts -/

/-- Only one attempt counts. -/
theorem Settles.unique {vain vain' : Nat} (h : w.Settles retries vain)
    (h' : w.Settles retries vain') : vain = vain' := by
  rcases Nat.lt_trichotomy vain vain' with hlt | heq | hgt
  · exact absurd (h'.earlier vain hlt) (h.final (Nat.lt_of_lt_of_le hlt h'.allowed))
  · exact heq
  · exact absurd (h.earlier vain' hgt) (h'.final (Nat.lt_of_lt_of_le hgt h.allowed))

/-- Without retries the first attempt counts. -/
theorem settles_zero (w : Wire) : w.Settles 0 0 :=
  ⟨Nat.le_refl 0, fun i hi => absurd hi (Nat.not_lt_zero i), fun h => absurd h (Nat.lt_irrefl 0)⟩

/-- A first attempt that is not retryable counts. -/
theorem settles_first (hfirst : ¬ (w.stepAfter 0).Retryable) : w.Settles retries 0 :=
  ⟨Nat.zero_le retries, fun i hi => absurd hi (Nat.not_lt_zero i), fun _ => hfirst⟩

/-- After a first attempt in vain the one counts that counts from there on. -/
theorem settles_succ {vain : Nat} {w' : Wire} (hfirst : (w.stepAfter 0).Retryable)
    (htook : w.Took 1 request w') (hrest : w'.Settles retries vain) :
    w.Settles (retries + 1) (vain + 1) := by
  have hstep : ∀ i, w'.stepAfter i = w.stepAfter (i + 1) := fun i => by
    rw [stepAfter_of_took htook, Nat.add_comm]
  refine ⟨Nat.succ_le_succ hrest.allowed, ?_, ?_⟩
  · intro i hi
    cases i with
    | zero => exact hfirst
    | succ i =>
        rw [← hstep]
        exact hrest.earlier i (Nat.lt_of_succ_lt_succ hi)
  · intro hleft
    rw [← hstep]
    exact hrest.final (Nat.lt_of_succ_lt_succ hleft)

/-- Some attempt counts, and the request ends as it does, after no others than those in vain. -/
theorem exists_settles (timeout retries : Nat) (request : Outgoing) (hopen : w.IsOpen) :
    ∃ vain, w.Settles retries vain ∧
      (w.send timeout request retries).1 = (w.stepAfter vain).attempt ∧
      w.Took (vain + 1) request (w.send timeout request retries).2 := by
  induction retries generalizing w with
  | zero =>
      obtain ⟨houtcome, htook⟩ := attempt_of_isOpen timeout request hopen
      exact ⟨0, settles_zero w, houtcome, htook⟩
  | succ retries ih =>
      obtain ⟨houtcome, htook⟩ := attempt_of_isOpen timeout request hopen
      have htransient : (w.attempt timeout request).1.isTransient = true ↔
          (w.stepAfter 0).Retryable := by
        rw [houtcome]
        exact ServerStep.isTransient_attempt_iff
      by_cases hfirst : (w.stepAfter 0).Retryable
      · have hagain : ((w.attempt timeout request).1.isTransient &&
            !(w.attempt timeout request).2.isExpired) = true := by
          rw [htransient.2 hfirst, isExpired_of_isOpen htook.1]
          rfl
        obtain ⟨vain, hsettles, hlast, hmore⟩ := ih htook.1
        refine ⟨vain + 1, settles_succ hfirst htook hsettles, ?_, ?_⟩
        · simp only [send, hagain, if_true]
          rw [hlast, stepAfter_of_took htook, Nat.add_comm]
        · simp only [send, hagain, if_true]
          rw [Nat.add_comm]
          exact htook.trans hmore
      · have hdone : ((w.attempt timeout request).1.isTransient &&
            !(w.attempt timeout request).2.isExpired) = false := by
          rw [Bool.eq_false_iff.2 fun h => hfirst (htransient.1 h), Bool.false_and]
        refine ⟨0, settles_first hfirst, ?_, ?_⟩
        · simp only [send, hdone]
          exact houtcome
        · simp only [send, hdone]
          exact htook

/-- The request ends as the attempt that counts does. -/
theorem send_of_settles {vain : Nat} (timeout : Nat) (request : Outgoing) (hopen : w.IsOpen)
    (hsettles : w.Settles retries vain) :
    (w.send timeout request retries).1 = (w.stepAfter vain).attempt ∧
      w.Took (vain + 1) request (w.send timeout request retries).2 := by
  obtain ⟨vain', hsettles', hsend⟩ := exists_settles timeout retries request hopen
  rw [hsettles.unique hsettles']
  exact hsend

/-- Where every attempt meets the same step, the request ends as one attempt at it does. -/
theorem send_of_repeats (timeout : Nat) (request : Outgoing) (hopen : w.IsOpen)
    (hstep : w.Repeats (attempts retries step) step) :
    (w.send timeout request retries).1 = step.attempt ∧
      w.Took (attempts retries step) request (w.send timeout request retries).2 := by
  -- The last of these attempts counts.
  have hsettles : w.Settles retries (attempts retries step - 1) := by
    by_cases htransient : step.attempt.isTransient = true
    · have hretryable := ServerStep.isTransient_attempt_iff.1 htransient
      rw [attempts, if_pos htransient] at hstep ⊢
      refine ⟨Nat.le_refl retries, fun i hi => ?_, fun h => absurd h (Nat.lt_irrefl retries)⟩
      rw [stepAfter, hstep i (Nat.lt_succ_of_lt hi)]
      exact hretryable
    · rw [attempts, if_neg htransient] at hstep ⊢
      apply settles_first
      rw [stepAfter, hstep 0 Nat.one_pos]
      exact fun hretryable => htransient (ServerStep.isTransient_attempt_iff.2 hretryable)
  have hcount : attempts retries step - 1 + 1 = attempts retries step :=
    Nat.sub_add_cancel (attempts_pos retries step)
  obtain ⟨houtcome, htook⟩ := send_of_settles timeout request hopen hsettles
  rw [hcount] at htook
  refine ⟨?_, htook⟩
  rw [houtcome, stepAfter, hstep _ (Nat.sub_lt (attempts_pos retries step) Nat.one_pos)]

/-- Whatever becomes of it, a request arrives some number of times, and nothing else does. -/
theorem exists_replicate_of_send (timeout : Nat) (request : Outgoing) (retries : Nat) (w : Wire) :
    ∃ n, (w.send timeout request retries).2.received =
      List.replicate n request ++ w.received := by
  have hattempt : ∀ w : Wire, ∃ n, (w.attempt timeout request).2.received =
      List.replicate n request ++ w.received := by
    intro w
    unfold attempt
    cases w.link with
    | down => exact ⟨0, rfl⟩
    | up => exact ⟨1, rfl⟩
  induction retries generalizing w with
  | zero => exact hattempt w
  | succ retries ih =>
      obtain ⟨m, hfirst⟩ := hattempt w
      simp only [send]
      split
      · obtain ⟨n, hmore⟩ := ih (w.attempt timeout request).2
        refine ⟨n + m, ?_⟩
        rw [hmore, hfirst, ← List.append_assoc, List.replicate_append_replicate]
      · exact ⟨m, hfirst⟩

end Wire

/-- The client sends nothing but the request, whatever becomes of it. -/
theorem Client.exists_replicate_of_send (c : Client) (request : Outgoing) (w : Wire) :
    ∃ n, (c.send request w).2.received = List.replicate n request ++ w.received := by
  by_cases hsend : isSendable c.token = true
  · rw [send, if_pos hsend]
    exact Wire.exists_replicate_of_send ..
  · rw [send, if_neg hsend]
    exact ⟨0, rfl⟩

end ChannelRelay
