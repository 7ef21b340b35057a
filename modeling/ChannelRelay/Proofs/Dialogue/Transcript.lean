import ChannelRelay.Surroundings

/-!
# Transcripts of dialogues

What a dialogue says, and what it is told, as a list of exchanges.  `Follows` is
the program logic of the library: a dialogue follows a rule if each of its calls
is permitted by the exchanges before it and its result fits the exchanges of the
whole dialogue, whatever it is told.  Since nothing is assumed of the answers, a
rule holds of a dialogue that is run alone (`Follows.ends_transcript`,
`Follows.may_call`) as well as of one that others interfere with.
-/

namespace ChannelRelay

/-- A call with its answer. -/
structure Exchange where
  call : Call
  answer : call.Answer

namespace Exchange

/-- The record that an exchange added to the store. -/
def saved? : Exchange → Option Credential
  | ⟨.save c, .ok _⟩ => some c
  | _ => none

/-- The record whose deletion was asked for and carried out. -/
def deleted? : Exchange → Option Credential
  | ⟨.delete c, .ok _⟩ => some c
  | _ => none

/-- Whether an exchange leaves the store as it is. -/
def Quiet (e : Exchange) : Prop :=
  e.saved? = none ∧ e.deleted? = none

theorem saved?_eq_some_iff {e : Exchange} {c : Credential} :
    e.saved? = some c ↔ e = ⟨.save c, .ok ()⟩ := by
  constructor
  · intro h
    obtain ⟨call, answer⟩ := e
    cases call with
    | save d =>
        cases answer with
        | ok u =>
            obtain rfl : d = c := Option.some.inj h
            rfl
        | error e => exact absurd h (by simp [saved?])
    | _ => exact absurd h (by simp [saved?])
  · rintro rfl
    rfl

theorem deleted?_eq_some_iff {e : Exchange} {c : Credential} :
    e.deleted? = some c ↔ e = ⟨.delete c, .ok ()⟩ := by
  constructor
  · intro h
    obtain ⟨call, answer⟩ := e
    cases call with
    | delete d =>
        cases answer with
        | ok u =>
            obtain rfl : d = c := Option.some.inj h
            rfl
        | error e => exact absurd h (by simp [deleted?])
    | _ => exact absurd h (by simp [deleted?])
  · rintro rfl
    rfl

/-- Only inserts and deletes change the store. -/
theorem quiet_of_call {e : Exchange} (hsave : ∀ c, e.call ≠ .save c)
    (hdelete : ∀ c, e.call ≠ .delete c) : e.Quiet := by
  constructor
  · cases h : e.saved? with
    | none => rfl
    | some c => exact absurd (congrArg call (saved?_eq_some_iff.1 h)) (hsave c)
  · cases h : e.deleted? with
    | none => rfl
    | some c => exact absurd (congrArg call (deleted?_eq_some_iff.1 h)) (hdelete c)

end Exchange

namespace Dialogue

variable {α β σ : Type}

/-- The exchanges of a run. -/
def transcript (answer : (c : Call) → σ → c.Answer × σ) : Dialogue α → σ → List Exchange
  | .done _, _ => []
  | .ask call next, s =>
    ⟨call, (answer call s).1⟩ :: (next (answer call s).1).transcript answer (answer call s).2

/-- After the exchanges `past`, every further call of a dialogue is one that `may`
be made, and its result is one that it `ends` with, whatever it is told. -/
def Follows (may : List Exchange → Call → Prop) (ends : List Exchange → α → Prop) :
    Dialogue α → List Exchange → Prop
  | .done a, past => ends past a
  | .ask call next, past =>
    may past call ∧ ∀ answer, (next answer).Follows may ends (past ++ [⟨call, answer⟩])

variable {may : List Exchange → Call → Prop} {ends : List Exchange → α → Prop}

theorem follows_bind {ends : List Exchange → β → Prop} (d : Dialogue α) (f : α → Dialogue β)
    (past : List Exchange) :
    (d.bind f).Follows may ends past ↔
      d.Follows may (fun past a => (f a).Follows may ends past) past := by
  induction d generalizing past with
  | done a => rfl
  | ask call next ih =>
      constructor
      · rintro ⟨hmay, hnext⟩
        exact ⟨hmay, fun answer => (ih answer _).1 (hnext answer)⟩
      · rintro ⟨hmay, hnext⟩
        exact ⟨hmay, fun answer => (ih answer _).2 (hnext answer)⟩

theorem Follows.imp {may' : List Exchange → Call → Prop} {ends' : List Exchange → α → Prop}
    {d : Dialogue α} {past : List Exchange} (h : d.Follows may ends past)
    (hmay : ∀ past call, may past call → may' past call)
    (hends : ∀ past a, ends past a → ends' past a) : d.Follows may' ends' past := by
  induction d generalizing past with
  | done a => exact hends past a h
  | ask call next ih => exact ⟨hmay past call h.1, fun answer => ih answer (h.2 answer)⟩

theorem Follows.mono {ends' : List Exchange → α → Prop} {d : Dialogue α}
    {past : List Exchange} (h : d.Follows may ends past)
    (himp : ∀ past a, ends past a → ends' past a) : d.Follows may ends' past :=
  h.imp (fun _ _ hcall => hcall) himp

theorem follows_congr {ends' : List Exchange → α → Prop} {d : Dialogue α}
    {past : List Exchange} (hiff : ∀ past a, ends past a ↔ ends' past a) :
    d.Follows may ends past ↔ d.Follows may ends' past :=
  ⟨fun h => h.mono fun past a => (hiff past a).1, fun h => h.mono fun past a => (hiff past a).2⟩

/-- The result of a run fits the transcript of the run. -/
theorem Follows.ends_transcript (answer : (c : Call) → σ → c.Answer × σ) {d : Dialogue α}
    {past : List Exchange} (h : d.Follows may ends past) (s : σ) :
    ends (past ++ d.transcript answer s) (d.run answer s).1 := by
  induction d generalizing past s with
  | done a =>
      rw [transcript, List.append_nil]
      exact h
  | ask call next ih =>
      have hrest := ih _ (h.2 (answer call s).1) (answer call s).2
      rw [List.append_assoc] at hrest
      exact hrest

/-- Each call of a run is permitted by the exchanges before it. -/
theorem Follows.may_call (answer : (c : Call) → σ → c.Answer × σ) {d : Dialogue α}
    {past before after : List Exchange} {e : Exchange} (h : d.Follows may ends past) {s : σ}
    (hsplit : d.transcript answer s = before ++ e :: after) : may (past ++ before) e.call := by
  induction d generalizing past before s with
  | done a => exact absurd hsplit (by simp [transcript])
  | ask call next ih =>
      cases before with
      | nil =>
          obtain ⟨rfl, -⟩ := List.cons.inj hsplit
          rw [List.append_nil]
          exact h.1
      | cons first before =>
          obtain ⟨rfl, hrest⟩ := List.cons.inj hsplit
          have hcall := ih _ (h.2 _) hrest
          rw [List.append_assoc] at hcall
          exact hcall

end Dialogue

namespace Operation

variable {α β : Type} {may : List Exchange → Call → Prop} {past : List Exchange}

/-- What comes after a success goes on from the exchanges so far; an error is the end. -/
theorem follows_bind {ends : List Exchange → Except RelayError β → Prop} (x : Operation α)
    (f : α → Operation β) :
    (x >>= f).run.Follows may ends past ↔
      x.run.Follows may (fun past result =>
        match result with
        | .ok a => (f a).run.Follows may ends past
        | .error e => ends past (.error e)) past := by
  refine (Dialogue.follows_bind _ _ _).trans (Dialogue.follows_congr fun past result => ?_)
  cases result with
  | ok a => rfl
  | error e => rfl

theorem follows_map {ends : List Exchange → Except RelayError β → Prop} (f : α → β)
    (x : Operation α) :
    (f <$> x).run.Follows may ends past ↔
      x.run.Follows may (fun past result => ends past (result.map f)) past := by
  refine (Dialogue.follows_bind _ _ _).trans (Dialogue.follows_congr fun past result => ?_)
  cases result with
  | ok a => rfl
  | error e => rfl

theorem follows_attempt {ε : Type} {ends : List Exchange → Except RelayError α → Prop}
    (failure : ε → RelayError) (d : Dialogue (Except ε α)) :
    (attempt failure d).run.Follows may ends past ↔
      d.Follows may (fun past result => ends past (result.mapError failure)) past := by
  refine (Dialogue.follows_bind _ _ _).trans (Dialogue.follows_congr fun past result => ?_)
  cases result with
  | ok a => rfl
  | error e => rfl

/-- An attempt that fails is the end; what comes after goes on from its success. -/
theorem follows_attempt_bind {ε : Type} {ends : List Exchange → Except RelayError β → Prop}
    (failure : ε → RelayError) (d : Dialogue (Except ε α)) (f : α → Operation β) :
    (attempt failure d >>= f).run.Follows may ends past ↔
      d.Follows may (fun past result =>
        match result with
        | .ok a => (f a).run.Follows may ends past
        | .error e => ends past (.error (failure e))) past := by
  refine (follows_bind _ _).trans ((follows_attempt _ _).trans ?_)
  refine Dialogue.follows_congr fun past result => ?_
  cases result with
  | ok a => rfl
  | error e => rfl

/-- An invariant of the exchanges is kept by a sequence if both parts keep it. -/
theorem follows_bind_keep {keep : List Exchange → Prop} {x : Operation α} {f : α → Operation β}
    (hx : x.run.Follows may (fun past _ => keep past) past)
    (hf : ∀ a past, keep past → (f a).run.Follows may (fun past _ => keep past) past) :
    (x >>= f).run.Follows may (fun past _ => keep past) past := by
  refine (follows_bind _ _).2 (hx.mono fun past result hkeep => ?_)
  cases result with
  | ok a => exact hf a past hkeep
  | error e => exact hkeep

end Operation

end ChannelRelay
