import ChannelRelay.Proofs.Passes.Trial

/-!
# Passes that are repeated

Nothing is remembered between passes, so a pass that broke off is simply repeated.
However often passes break off, and wherever, the one that succeeds in the end leaves
the records that a single pass would have left, and together they delete each record
of an archived channel once (`passes_resume`).  What carries the induction is that
the records deleted so far are always the first ones of those that the plan for the
first records retires (`passes_from`).
-/

namespace ChannelRelay

namespace Surroundings

section Passes

variable (ops : String) (channels : List Channel)

/-- What a pass with some mishaps reports, and what it leaves behind. -/
def pass (s : Surroundings) (m : Mishaps) : Except RelayError Reconcile.Report × Surroundings :=
  let ended := (Reconcile.pass ops).run.run Trial.answer (s.facing channels m)
  (ended.1, ended.2.around)

/-- The exchanges of a pass with some mishaps. -/
def passExchanges (s : Surroundings) (m : Mishaps) : List Exchange :=
  (Reconcile.pass ops).run.transcript Trial.answer (s.facing channels m)

/-- The surroundings after some passes. -/
def passes (s : Surroundings) (ms : List Mishaps) : Surroundings :=
  ms.foldl (fun s m => (s.pass ops channels m).2) s

/-- The records that some passes deleted, in the order of the deletes. -/
def deletions : Surroundings → List Mishaps → List Credential
  | _, [] => []
  | s, m :: ms =>
    (s.passExchanges ops channels m).filterMap Exchange.deleted? ++
      (s.pass ops channels m).2.deletions ms

variable {s : Surroundings} {l : Ledger}

theorem deletions_append (s : Surroundings) (ms more : List Mishaps) :
    s.deletions ops channels (ms ++ more) =
      s.deletions ops channels ms ++ (s.passes ops channels ms).deletions ops channels more := by
  induction ms generalizing s with
  | nil => rfl
  | cons m ms ih =>
      rw [List.cons_append, deletions, deletions, ih, List.append_assoc]
      rfl

/-! ## One pass -/

/-- A pass that cannot read the records or list the channels does nothing else. -/
theorem pass_unplanned (hstore : s.store = .ledger .plain l) {m : Mishaps}
    (hfails : m.scan ≠ none ∨ m.listing ≠ none) :
    (s.passExchanges ops channels m).filterMap Exchange.deleted? = [] ∧
      (s.pass ops channels m).2.store = .ledger .plain l ∧
      ∃ e, (s.pass ops channels m).1 = .error e := by
  obtain ⟨scan, listing, posts, deletes⟩ := m
  unfold pass passExchanges
  rw [Reconcile.run_pass, Reconcile.facing_eq hstore]
  cases scan with
  | some e => exact ⟨rfl, rfl, .store e, rfl⟩
  | none =>
      cases listing with
      | some text => exact ⟨rfl, rfl, .slack (.reported text), rfl⟩
      | none => exact absurd hfails (by simp)

/-- A pass deletes the first ones of the records that its plan retires, and all of them if
it succeeds; then it reports its plan. -/
theorem pass_deletes (hstore : s.store = .ledger .plain l) (m : Mishaps) :
    let plan := Plan.of l.records channels
    let gone := (s.passExchanges ops channels m).filterMap Exchange.deleted?
    (s.pass ops channels m).2.store = .ledger .plain (l.without gone) ∧ gone <+: plan.retired ∧
      ∀ report, (s.pass ops channels m).1 = .ok report →
        gone = plan.retired ∧ report = plan.report := by
  intro plan gone
  by_cases hfails : m.scan ≠ none ∨ m.listing ≠ none
  · obtain ⟨hnone, hsame, e, herror⟩ := pass_unplanned ops channels hstore hfails
    have hgone : gone = [] := hnone
    rw [hgone, hsame, herror, Ledger.without_nil]
    exact ⟨rfl, List.nil_prefix, fun report hreport => absurd hreport (by simp)⟩
  · obtain ⟨scan, listing, posts, deletes⟩ := m
    obtain ⟨rfl, rfl⟩ : scan = none ∧ listing = none := by simpa using hfails
    obtain ⟨es, x, htranscript, -, hworked, hresult, hrecords, -⟩ :=
      Reconcile.planned_pass ops channels hstore posts deletes
    have hgone : gone = es.filterMap Exchange.deleted? := by
      show (s.passExchanges ops channels _).filterMap Exchange.deleted? = _
      rw [passExchanges, htranscript]
      rfl
    refine ⟨hgone ▸ hrecords, ?_, fun report hreport => ?_⟩
    · rw [hgone, hworked.deleted_eq, ← Plan.filterMap_record?_tasks]
      exact hworked.finished_prefix.filterMap _
    · cases x with
      | some e =>
          have hend : Except.error e = Except.ok report := hresult.symm.trans hreport
          exact absurd hend (by simp)
      | none =>
          have hend : Except.ok plan.report = Except.ok report := hresult.symm.trans hreport
          refine ⟨?_, (Except.ok.inj hend).symm⟩
          rw [hgone, hworked.deleted_eq, hworked.finished_eq, Plan.filterMap_record?_tasks]

theorem mem_of_mem_untilFailure {e : Exchange} {es : List Exchange}
    (h : e ∈ untilFailure es) : e ∈ es := by
  induction es with
  | nil => exact h
  | cons f es ih =>
      unfold untilFailure at h
      split at h
      · rcases List.mem_cons.1 h with rfl | h
        · exact List.mem_cons_self
        · exact List.mem_cons_of_mem f (ih h)
      · rw [List.mem_singleton.1 h]
        exact List.mem_cons_self

/-- Without a script everything succeeds. -/
theorem answered_done (calls : List Call) : ∀ e ∈ answered calls [] [], e.failure? = none := by
  induction calls with
  | nil => intro e he; exact absurd he List.not_mem_nil
  | cons call calls ih =>
      intro e he
      cases call with
      | post channel name payload =>
          rcases List.mem_cons.1 he with rfl | he
          · rfl
          · exact ih e he
      | delete c =>
          rcases List.mem_cons.1 he with rfl | he
          · rfl
          · exact ih e he
      | count family value =>
          rcases List.mem_cons.1 he with rfl | he
          · rfl
          · exact ih e he
      | _ => exact ih e he

/-- A pass in which nothing goes wrong takes all steps of its plan and reports it. -/
theorem pass_none (hstore : s.store = .ledger .plain l) :
    let plan := Plan.of l.records channels
    (s.pass ops channels .none).1 = .ok plan.report ∧
      ((s.passExchanges ops channels .none).filter Exchange.isStep).map Exchange.call =
        plan.steps ops := by
  intro plan
  obtain ⟨es, x, htranscript, hscript, hworked, hresult, -⟩ :=
    Reconcile.planned_pass ops channels hstore [] []
  have hdone : ∀ e ∈ es.filter Exchange.isStep, e.failure? = none := by
    intro e he
    have hmem : e ∈ es := (List.mem_filter.1 he).1
    rw [hscript] at hmem
    exact answered_done _ e (mem_of_mem_untilFailure hmem)
  have hnone : x = none := by
    cases hx : x with
    | none => rfl
    | some error =>
        obtain ⟨e, he, hfailed⟩ := (hworked.eq_some_iff error).1 hx
        rw [hdone e (List.mem_of_getLast? he)] at hfailed
        exact absurd hfailed (by simp)
  subst hnone
  refine ⟨hresult, ?_⟩
  show (((Reconcile.pass ops).run.transcript Trial.answer _).filter _).map _ = _
  rw [Mishaps.none, htranscript]
  exact hworked.calls_eq

/-! ## Many passes -/

/-- Passes go on where the ones before them broke off: if the records deleted so far are
the first ones that the plan for the first records retires, they stay so. -/
theorem passes_from {done rest : List Credential} (ms : List Mishaps)
    (hretired : (Plan.of l.records channels).retired = done ++ rest)
    (hstore : s.store = .ledger .plain (l.without done)) :
    ∃ rest', (Plan.of l.records channels).retired =
        (done ++ s.deletions ops channels ms) ++ rest' ∧
      (s.passes ops channels ms).store =
        .ledger .plain (l.without (done ++ s.deletions ops channels ms)) := by
  induction ms generalizing s done rest with
  | nil =>
      refine ⟨rest, ?_, ?_⟩
      · rw [deletions, List.append_nil]
        exact hretired
      · rw [deletions, List.append_nil]
        exact hstore
  | cons m ms ih =>
      obtain ⟨hnext, hfirst, -⟩ := pass_deletes ops channels hstore m
      rw [Plan.retired_rest hretired] at hfirst
      obtain ⟨more, hmore⟩ := hfirst
      rw [Ledger.without_without] at hnext
      rw [deletions, ← List.append_assoc]
      have hleft : (Plan.of l.records channels).retired =
          (done ++ (s.passExchanges ops channels m).filterMap Exchange.deleted?) ++ more := by
        rw [hretired, ← hmore, List.append_assoc]
      exact ih hleft hnext

/-- A pass in which nothing goes wrong deletes all that is left to be retired. -/
theorem pass_completes {done rest : List Credential}
    (hretired : (Plan.of l.records channels).retired = done ++ rest)
    (hstore : s.store = .ledger .plain (l.without done)) :
    let plan := Plan.of l.records channels
    (s.passExchanges ops channels .none).filterMap Exchange.deleted? = rest ∧
      (s.pass ops channels .none).2.store = .ledger .plain (l.without plan.retired) ∧
      (s.pass ops channels .none).1 =
        .ok ⟨rest.length, plan.migrations.length, plan.renames.length⟩ := by
  intro plan
  obtain ⟨hresult, -⟩ := pass_none ops channels hstore
  obtain ⟨hnext, -, hall⟩ := pass_deletes ops channels hstore .none
  obtain ⟨hdeleted, -⟩ := hall _ hresult
  rw [Plan.retired_rest hretired] at hdeleted
  rw [hdeleted, Ledger.without_without, ← hretired] at hnext
  rw [Plan.report_rest hretired] at hresult
  exact ⟨hdeleted, hnext, hresult⟩

/-- When all are gone, passes change nothing any more. -/
theorem passes_settled (hstore : s.store =
      .ledger .plain (l.without (Plan.of l.records channels).retired)) (ms : List Mishaps) :
    (s.passes ops channels ms).store = s.store := by
  obtain ⟨rest, hretired, hlater⟩ := passes_from ops channels ms (List.append_nil _).symm hstore
  have hnone : s.deletions ops channels ms = [] := by
    have hlength := congrArg List.length hretired
    simp only [List.length_append] at hlength
    exact List.length_eq_zero_iff.1 (by omega)
  rw [hlater, hnone, List.append_nil, hstore]

/-- However many passes broke off, and wherever: a pass in which nothing goes wrong then
leaves what a single such pass would have left.  Together they delete the records of
archived channels, each once and in order, and nothing else.  The last pass reports the
archived records that were still there, with the migrations and renamings of the first
plan.  After it there is nothing to retire, no pass changes the records any more, and one
that succeeds reports no archived records and the same migrations and renamings. -/
theorem passes_resume (s : Surroundings) (l : Ledger) (ms more : List Mishaps) (m : Mishaps) :
    let archived (records : List Credential) :=
      records.filter fun c => (Plan.archived? channels c).isSome
    let start := { s with store := .ledger .plain l }
    let plan := Plan.of l.records channels
    let single := start.pass ops channels .none
    let broken := start.passes ops channels ms
    let left := broken.store.records
    let last := broken.pass ops channels .none
    let later := last.2.passes ops channels more
    let quiet : Reconcile.Report := ⟨0, plan.migrations.length, plan.renames.length⟩
    last.2.store = single.2.store ∧
    start.deletions ops channels (ms ++ [.none]) = archived l.records ∧
    last.1 = .ok ⟨(archived left).length, plan.migrations.length, plan.renames.length⟩ ∧
    (Plan.of left channels).migrations = plan.migrations ∧
    (Plan.of left channels).renames = plan.renames ∧
    ((broken.passExchanges ops channels .none).filter Exchange.isStep).map Exchange.call =
      (Plan.of left channels).steps ops ∧
    Plan.of later.store.records channels = ⟨[], plan.migrations, plan.renames⟩ ∧
    (later.pass ops channels m).2.store = last.2.store ∧
    (∀ report, (later.pass ops channels m).1 = .ok report → report = quiet) ∧
    (later.pass ops channels .none).1 = .ok quiet := by
  intro archived start plan single broken left last later quiet
  have hstart : start.store = .ledger .plain (l.without []) := by
    rw [Ledger.without_nil]
  have hall : plan.retired = [] ++ plan.retired := rfl
  obtain ⟨rest, hretired, hbroken⟩ := passes_from ops channels ms hall hstart
  rw [List.nil_append] at hretired hbroken
  obtain ⟨hdeleted, hlast, hreport⟩ := pass_completes ops channels hretired hbroken
  obtain ⟨-, hsingle, -⟩ := pass_completes ops channels hall hstart
  have hleft : left = (l.without (start.deletions ops channels ms)).records :=
    congrArg Store.records hbroken
  have harchived : archived left = rest := by
    rw [hleft]
    exact (Plan.retired_of _ channels).symm.trans (Plan.retired_rest hretired)
  have hgone : ∀ c ∈ start.deletions ops channels ms, c ∈ plan.retired := by
    intro c hc
    rw [hretired]
    exact List.mem_append_left _ hc
  have hothers := Plan.of_without hgone
  have hlater : later.store = .ledger .plain (l.without plan.retired) :=
    (passes_settled ops channels hlast more).trans hlast
  have hfull : plan.retired = plan.retired ++ [] := (List.append_nil _).symm
  refine ⟨hlast.trans hsingle.symm, ?_, ?_, ?_, ?_, ?_, ?_, ?_, ?_, ?_⟩
  · rw [deletions_append, deletions, deletions, List.append_nil, hdeleted, ← hretired]
    exact Plan.retired_of l.records channels
  · rw [harchived]
    exact hreport
  · rw [hleft, hothers]
  · rw [hleft, hothers]
  · rw [hleft]
    exact (pass_none ops channels hbroken).2
  · have hrecords : later.store.records = (l.without plan.retired).records :=
      congrArg Store.records hlater
    have hnone : plan.archived.filter (·.record ∉ plan.retired) = [] := by
      refine List.filter_eq_nil_iff.2 fun a ha => ?_
      simpa [Plan.retired] using ⟨a, ha, rfl⟩
    rw [hrecords, Plan.of_without fun c hc => hc, hnone]
  · exact (passes_settled ops channels hlater [m]).trans (hlater.trans hlast.symm)
  · intro report hok
    obtain ⟨-, -, hall⟩ := pass_deletes ops channels hlater m
    rw [(hall report hok).2]
    exact Plan.report_rest hfull
  · exact (pass_completes ops channels hfull hlater).2.2

end Passes

end Surroundings

end ChannelRelay
