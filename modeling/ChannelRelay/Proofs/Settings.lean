import ChannelRelay.Proofs.Text.Decimal
import ChannelRelay.Settings

/-!
# Which environments hold settings

Settings are looked for in a fixed order, and the first fault that is found is reported: a missing
database in production, crossed waits between attempts, or a text that has to be set
(`load_reports_first_fault`).  Numbers are no faults, since a variable that holds none in its range
stands for a default (`Stands`).  Settings that are found have what the parts that are built from
them need.
-/

namespace ChannelRelay.Settings

variable {env : Environment} {name : String} {largest fallback n : Nat}

/-! ## Numbers -/

/-- A variable holds a number: an unsigned numeral that is not too large. -/
def Holds (env : Environment) (name : String) (largest n : Nat) : Prop :=
  ∃ text, env name = some text ∧ Decimal.Denotes text.toList n ∧
    text.toList.head? ≠ some '-' ∧ n ≤ largest

/-- The number that a variable stands for: the one that it holds, or a fixed one. -/
inductive Stands (env : Environment) (name : String) (largest fallback : Nat) : Nat → Prop where
  | held {n : Nat} (h : Holds env name largest n) : Stands env name largest fallback n
  | fallback (h : ∀ n, ¬ Holds env name largest n) : Stands env name largest fallback fallback

theorem number?_eq_some_iff : number? env name largest = some n ↔ Holds env name largest n := by
  rw [number?, Option.bind_eq_some_iff]
  exact exists_congr fun text => and_congr_right fun _ => Decimal.readNat?_eq_some_iff

theorem number_eq_iff :
    number env name largest fallback = n ↔ Stands env name largest fallback n := by
  rw [number]
  cases hnumber : number? env name largest with
  | some m =>
      have hheld := number?_eq_some_iff.1 hnumber
      constructor
      · rintro rfl
        exact .held hheld
      · intro h
        cases h with
        | held h => exact Option.some.inj (hnumber.symm.trans (number?_eq_some_iff.2 h))
        | fallback h => exact absurd hheld (h m)
  | none =>
      have hnone : ∀ m, ¬ Holds env name largest m := by
        intro m h
        rw [number?_eq_some_iff.2 h] at hnumber
        exact absurd hnumber (by simp)
      constructor
      · rintro rfl
        exact .fallback hnone
      · intro h
        cases h with
        | held h => exact absurd h (hnone n)
        | fallback => rfl

/-! ## Faults -/

/-- The relay runs in production.  The general name of the mode counts where the relay's own is not
set, but not where it is set to another text. -/
def InProduction (env : Environment) : Prop :=
  env "HOOKRELAY_ENV" = some "production" ∨
    env "HOOKRELAY_ENV" = none ∧ env "RUST_ENV" = some "production"

/-- What is wrong with an environment, by the error that reports it. -/
inductive Fault (env : Environment) : SettingsError → Prop where
  | databaseRequired (hnone : ∀ url, env "DATABASE_URL" = some url → url = "")
      (hproduction : InProduction env) : Fault env .databaseRequired
  | waitsCrossed {waitMin waitMax : Nat}
      (hmin : Stands env "HOOKRELAY_RETRY_WAIT_MIN_MS" max64 1000 waitMin)
      (hmax : Stands env "HOOKRELAY_RETRY_WAIT_MAX_MS" max64 10000 waitMax)
      (hcrossed : waitMax < waitMin) : Fault env .waitsCrossed
  | missing {name : String} (hnone : env name = none) : Fault env (.missing name)

/-- The faults in the order in which they are looked for. -/
def faults : List SettingsError :=
  [.databaseRequired, .waitsCrossed, .missing "SLACK_TOKEN", .missing "SLACK_SIGNING_SECRET",
    .missing "HOOKRELAY_OPS_CHANNEL"]

/-- The first of some faults that an environment has. -/
inductive FirstFault (env : Environment) : List SettingsError → SettingsError → Prop where
  | here {e : SettingsError} {rest : List SettingsError} (h : Fault env e) :
      FirstFault env (e :: rest) e
  | later {e f : SettingsError} {rest : List SettingsError} (hnot : ¬ Fault env f)
      (h : FirstFault env rest e) : FirstFault env (f :: rest) e

section Order

variable {e e' : SettingsError} {looked rest : List SettingsError}

theorem FirstFault.fault (h : FirstFault env looked e) : e ∈ looked ∧ Fault env e := by
  induction h with
  | here h => exact ⟨List.mem_cons_self, h⟩
  | later _ _ ih => exact ⟨List.mem_cons_of_mem _ ih.1, ih.2⟩

theorem FirstFault.unique (h : FirstFault env looked e) (h' : FirstFault env looked e') :
    e = e' := by
  induction h with
  | here h =>
      cases h' with
      | here => rfl
      | later hnot => exact absurd h hnot
  | later hnot _ ih =>
      cases h' with
      | here h => exact absurd h hnot
      | later _ h' => exact ih h'

theorem FirstFault.append (h : FirstFault env looked e) (rest : List SettingsError) :
    FirstFault env (looked ++ rest) e := by
  induction h with
  | here h => exact .here h
  | later hnot _ ih => exact .later hnot ih

theorem FirstFault.of_clear (hclear : ∀ f ∈ looked, ¬ Fault env f)
    (h : FirstFault env rest e) : FirstFault env (looked ++ rest) e := by
  induction looked with
  | nil => exact h
  | cons f looked ih =>
      exact .later (hclear f List.mem_cons_self)
        (ih fun g hg => hclear g (List.mem_cons_of_mem f hg))

end Order

/-- A reading that looks for some faults in their order, and succeeds if there are none. -/
inductive LooksFor {α : Type} (env : Environment) (looked : List SettingsError) :
    Except SettingsError α → Prop where
  | found (a : α) (hclear : ∀ f ∈ looked, ¬ Fault env f) : LooksFor env looked (.ok a)
  | fault {e : SettingsError} (h : FirstFault env looked e) : LooksFor env looked (.error e)

namespace LooksFor

variable {α β : Type} {looked rest : List SettingsError} {x : Except SettingsError α}

theorem pure (a : α) : LooksFor env [] (Pure.pure a : Except SettingsError α) :=
  .found a (by simp)

/-- A reading that goes on from another one looks for its faults after those of the other. -/
theorem bind {f : α → Except SettingsError β} (hx : LooksFor env looked x)
    (hf : ∀ a, LooksFor env rest (f a)) : LooksFor env (looked ++ rest) (x >>= f) := by
  cases hx with
  | fault h => exact .fault (h.append rest)
  | found a hclear =>
      show LooksFor env (looked ++ rest) (f a)
      have hrest := hf a
      generalize f a = y at hrest ⊢
      cases hrest with
      | found b hrest =>
          exact .found b (List.forall_mem_append.2 ⟨hclear, hrest⟩)
      | fault h => exact .fault (h.of_clear hclear)

theorem one {e : SettingsError} (a : α) (h : ¬ Fault env e) : LooksFor env [e] (.ok a) :=
  .found a (List.forall_mem_singleton.2 h)

theorem error_iff {e : SettingsError} (h : LooksFor env looked x) :
    x = .error e ↔ FirstFault env looked e := by
  cases h with
  | found a hclear =>
      constructor
      · intro herror
        exact absurd herror (by simp)
      · intro hfault
        exact absurd hfault.fault.2 (hclear e hfault.fault.1)
  | fault h =>
      constructor
      · intro herror
        exact Except.error.inj herror ▸ h
      · intro hfault
        rw [h.unique hfault]

/-- A reading fails exactly if one of its faults is there. -/
theorem fails_iff (h : LooksFor env looked x) :
    (∃ e, x = .error e) ↔ ∃ e ∈ looked, Fault env e := by
  cases h with
  | found a hclear =>
      constructor
      · rintro ⟨e, herror⟩
        exact absurd herror (by simp)
      · rintro ⟨e, he, hfault⟩
        exact absurd hfault (hclear e he)
  | @fault e h => exact iff_of_true ⟨e, rfl⟩ ⟨e, h.fault⟩

end LooksFor

/-! ## The three readings -/

theorem isProduction_iff : isProduction env = true ↔ InProduction env := by
  unfold isProduction InProduction
  cases env "HOOKRELAY_ENV" <;> simp

theorem filled?_eq_none_iff :
    filled? env name = none ↔ ∀ text, env name = some text → text = "" := by
  simp [filled?, Option.filter_eq_none_iff]

theorem filled?_eq_some_iff {text : String} :
    filled? env name = some text ↔ env name = some text ∧ text ≠ "" := by
  simp [filled?, Option.filter_eq_some_iff]

theorem databaseUrlOf_looksFor (env : Environment) :
    LooksFor env [.databaseRequired] (databaseUrlOf env) := by
  unfold databaseUrlOf
  cases hurl : filled? env "DATABASE_URL" with
  | some url =>
      obtain ⟨hset, hfull⟩ := filled?_eq_some_iff.1 hurl
      refine .one _ fun h => ?_
      cases h with
      | databaseRequired hnone => exact hfull (hnone url hset)
  | none =>
      by_cases hproduction : isProduction env = true
      · rw [if_pos hproduction]
        exact .fault (.here (.databaseRequired (filled?_eq_none_iff.1 hurl)
          (isProduction_iff.1 hproduction)))
      · rw [if_neg hproduction]
        refine .one _ fun h => ?_
        cases h with
        | databaseRequired _ h => exact hproduction (isProduction_iff.2 h)

theorem retryOf_looksFor (env : Environment) : LooksFor env [.waitsCrossed] (retryOf env) := by
  unfold retryOf
  dsimp only
  split
  · rename_i hcrossed
    exact .fault (.here (.waitsCrossed (number_eq_iff.1 rfl) (number_eq_iff.1 rfl) hcrossed))
  · rename_i hordered
    refine .one _ fun h => ?_
    cases h with
    | waitsCrossed hmin hmax hcrossed =>
        rw [← number_eq_iff.2 hmin, ← number_eq_iff.2 hmax] at hcrossed
        exact hordered hcrossed

theorem required_looksFor (env : Environment) (name : String) :
    LooksFor env [.missing name] (required env name) := by
  unfold required
  cases htext : env name with
  | some text =>
      refine .one _ fun h => ?_
      cases h with
      | missing hnone => exact absurd (htext.symm.trans hnone) (by simp)
  | none => exact .fault (.here (.missing htext))

/-- Settings are looked for in the order of their faults. -/
theorem load_looksFor (env : Environment) : LooksFor env faults (load env) := by
  refine (databaseUrlOf_looksFor env).bind fun databaseUrl => ?_
  refine (retryOf_looksFor env).bind fun retry => ?_
  refine (required_looksFor env "SLACK_TOKEN").bind fun slackToken => ?_
  refine (required_looksFor env "SLACK_SIGNING_SECRET").bind fun signingSecret => ?_
  exact (required_looksFor env "HOOKRELAY_OPS_CHANNEL").bind fun opsChannel => .pure _

/-! ## Settings that are found -/

section Found

variable {settings : Settings}

theorem bind_eq_ok {α β : Type} {x : Except SettingsError α} {f : α → Except SettingsError β}
    {b : β} (h : x >>= f = .ok b) : ∃ a, x = .ok a ∧ f a = .ok b := by
  cases x with
  | ok a => exact ⟨a, rfl, h⟩
  | error e => exact absurd h (by simp [Bind.bind, Except.bind])

/-- The parts of settings that other parts of the relay rely on, each with its reading. -/
theorem readings_of_load (h : load env = .ok settings) :
    databaseUrlOf env = .ok settings.databaseUrl ∧ retryOf env = .ok settings.retry ∧
      settings.reconcileInterval =
        (number? env "HOOKRELAY_RECONCILE_INTERVAL_SECS" max64).filter (0 < ·) := by
  obtain ⟨databaseUrl, hdatabase, h⟩ := bind_eq_ok h
  obtain ⟨retry, hretry, h⟩ := bind_eq_ok h
  obtain ⟨slackToken, -, h⟩ := bind_eq_ok h
  obtain ⟨signingSecret, -, h⟩ := bind_eq_ok h
  obtain ⟨opsChannel, -, h⟩ := bind_eq_ok h
  obtain rfl := Except.ok.inj h
  exact ⟨hdatabase, hretry, rfl⟩

theorem waits_of_retryOf {retry : RetrySettings} (h : retryOf env = .ok retry) :
    retry.waitMin ≤ retry.waitMax := by
  unfold retryOf at h
  dsimp only at h
  split at h
  · exact absurd h (by simp)
  · rename_i hordered
    obtain rfl := Except.ok.inj h
    exact Nat.le_of_not_lt hordered

theorem url_of_databaseUrlOf {found : Option String} (h : databaseUrlOf env = .ok found)
    (hproduction : InProduction env) : ∃ url, found = some url ∧ url ≠ "" := by
  unfold databaseUrlOf at h
  split at h
  · rename_i url hurl
    obtain rfl := Except.ok.inj h
    exact ⟨url, rfl, (filled?_eq_some_iff.1 hurl).2⟩
  · rw [if_pos (isProduction_iff.2 hproduction)] at h
    exact absurd h (by simp)

end Found

/-- For every environment: no settings are found exactly if it has one of the faults, and the error
is the first fault in their order.  The waits of settings that are found are in order, the time
between two passes is at least a second if there is one, and in production there is a database. -/
theorem load_reports_first_fault (env : Environment) :
    ((∃ e, load env = .error e) ↔ ∃ e ∈ faults, Fault env e) ∧
      (∀ e, load env = .error e ↔ FirstFault env faults e) ∧
      ∀ settings, load env = .ok settings →
        settings.retry.waitMin ≤ settings.retry.waitMax ∧
          (∀ seconds, settings.reconcileInterval = some seconds → 1 ≤ seconds) ∧
          (InProduction env → ∃ url, settings.databaseUrl = some url ∧ url ≠ "") := by
  refine ⟨(load_looksFor env).fails_iff, fun e => (load_looksFor env).error_iff, ?_⟩
  intro settings h
  obtain ⟨hdatabase, hretry, hinterval⟩ := readings_of_load h
  refine ⟨waits_of_retryOf hretry, fun seconds hseconds => ?_, url_of_databaseUrlOf hdatabase⟩
  rw [hinterval, Option.filter_eq_some_iff] at hseconds
  exact Nat.succ_le_of_lt (of_decide_eq_true hseconds.2)

/-- The shortest wait is no number of 64 bits, so it is a second, which is longer than the longest
wait.  That the texts are missing is not reported. -/
example :
    load (fun name =>
        if name = "HOOKRELAY_RETRY_WAIT_MIN_MS" then some "18446744073709551616"
        else if name = "HOOKRELAY_RETRY_WAIT_MAX_MS" then some "+500"
        else none) =
      .error .waitsCrossed := by
  rfl

end ChannelRelay.Settings
