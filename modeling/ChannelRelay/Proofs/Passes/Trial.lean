import ChannelRelay.Proofs.Counters
import ChannelRelay.Proofs.Passes.Plan
import ChannelRelay.Proofs.Passes.Worked
import ChannelRelay.Surroundings

/-!
# Passes on trial

A pass that nobody disturbs but in which anything may fail: reading the records,
listing the channels, and every post and delete, each by a script of its own.  A
delete that fails leaves the records as they are.

`pass_on_trial` says what such a pass does at every point where it can break off: the
calls that it makes, the error that it ends in, the records that are left and what was
counted.
-/

namespace ChannelRelay

/-- What goes wrong in a pass. -/
structure Mishaps where
  /-- Why the records cannot be read, if they cannot. -/
  scan : Option StoreError
  /-- Why the channels cannot be listed, if they cannot. -/
  listing : Option String
  /-- How the posts end; posts past the end succeed. -/
  posts : List (Except SlackError PostResult)
  /-- Why the deletes fail, if they do; deletes past the end are not hindered. -/
  deletes : List (Option StoreError)

/-- Nothing goes wrong. -/
def Mishaps.none : Mishaps := ⟨.none, .none, [], []⟩

/-- Surroundings in which reading and deleting may fail. -/
structure Trial where
  around : Surroundings
  scan : Option StoreError
  /-- Why the coming deletes fail, if they do. -/
  deletes : List (Option StoreError)

namespace Trial

/-- Answers a call, unless it is to fail. -/
def answer : (c : Call) → Trial → c.Answer × Trial
  | .scan, t =>
    match t.scan with
    | some e => (.error e, t)
    | none =>
      ((Surroundings.answer .scan t.around).1,
        { t with around := (Surroundings.answer .scan t.around).2 })
  | .delete c, t =>
    match t.deletes.headD none with
    | some e => (.error e, { t with deletes := t.deletes.drop 1 })
    | none =>
      ((Surroundings.answer (.delete c) t.around).1,
        ⟨(Surroundings.answer (.delete c) t.around).2, t.scan, t.deletes.drop 1⟩)
  | call, t =>
    ((Surroundings.answer call t.around).1,
      { t with around := (Surroundings.answer call t.around).2 })

end Trial

/-- Surroundings with a listing, and with mishaps to come. -/
def Surroundings.facing (s : Surroundings) (channels : List Channel) (m : Mishaps) : Trial :=
  ⟨{ s with chat := .directory ⟨channels, m.listing, m.posts⟩ }, m.scan, m.deletes⟩

/-! ## Scripts -/

/-- How a delete ends that nobody disturbs. -/
def deletion : Option StoreError → Except StoreError Unit
  | some e => .error e
  | none => .ok ()

/-- The exchanges of some posts, deletes and counts, if each post and each delete ends
as its script says. -/
def answered : List Call → List (Except SlackError PostResult) → List (Option StoreError) →
    List Exchange
  | [], _, _ => []
  | .post channel name payload :: calls, posts, deletes =>
    ⟨.post channel name payload, posts.headD (.ok .ok)⟩ ::
      answered calls (posts.drop 1) deletes
  | .delete c :: calls, posts, deletes =>
    ⟨.delete c, deletion (deletes.headD none)⟩ :: answered calls posts (deletes.drop 1)
  | .count family value :: calls, posts, deletes =>
    ⟨.count family value, ()⟩ :: answered calls posts deletes
  | _ :: calls, posts, deletes => answered calls posts deletes

/-- Exchanges up to the first one that fails, which is the last. -/
def untilFailure : List Exchange → List Exchange
  | [] => []
  | e :: es => if e.failure?.isNone then e :: untilFailure es else [e]

namespace Reconcile

open Operation (through)

section Script

variable {α : Type} (a : α) {s : Surroundings} {scan : Option StoreError} {l : Ledger}
  {channels : List Channel} {listing : Option String}

/-- Surroundings with a plain ledger and a directory. -/
abbrev around (s : Surroundings) (l : Ledger) (d : Directory) : Surroundings :=
  { s with store := .ledger .plain l, chat := .directory d }

theorem facing_eq (hstore : s.store = .ledger .plain l) (channels : List Channel)
    (m : Mishaps) :
    s.facing channels m = ⟨around s l ⟨channels, m.listing, m.posts⟩, m.scan, m.deletes⟩ := by
  rw [Surroundings.facing, around, ← hstore]

section Answers

variable (s) (scan) (l) (channels) (listing)

theorem answer_post (channel name : String) (payload : Json.Members)
    (posts : List (Except SlackError PostResult)) (deletes : List (Option StoreError)) :
    Trial.answer (.post channel name payload)
        ⟨around s l ⟨channels, listing, posts⟩, scan, deletes⟩ =
      (posts.headD (.ok .ok),
        ⟨around { s with posted := ⟨channel, name, payload⟩ :: s.posted } l
          ⟨channels, listing, posts.drop 1⟩, scan, deletes⟩) :=
  rfl

theorem answer_count (family : Family) (value : String)
    (posts : List (Except SlackError PostResult)) (deletes : List (Option StoreError)) :
    Trial.answer (.count family value)
        ⟨around s l ⟨channels, listing, posts⟩, scan, deletes⟩ =
      ((), ⟨around { s with metrics := s.metrics.count family value } l
        ⟨channels, listing, posts⟩, scan, deletes⟩) :=
  rfl

theorem answer_delete_failed (c : Credential) (d : Directory) {e : StoreError}
    {deletes : List (Option StoreError)} (hhead : deletes.headD none = some e) :
    Trial.answer (.delete c) ⟨around s l d, scan, deletes⟩ =
      (.error e, ⟨around s l d, scan, deletes.drop 1⟩) := by
  simp only [Trial.answer, hhead]

/-- A delete that is not hindered finds its record, since nobody else takes it. -/
theorem answer_delete_done {c : Credential} (d : Directory)
    {deletes : List (Option StoreError)} (hc : c ∈ l.records)
    (hhead : deletes.headD none = none) :
    Trial.answer (.delete c) ⟨around s l d, scan, deletes⟩ =
      (.ok (), ⟨around s (l.without [c]) d, scan, deletes.drop 1⟩) := by
  simp only [Trial.answer, hhead]
  simp [Surroundings.answer, Store.delete_of_ok (Ledger.delete_of_mem hc)]

end Answers

theorem untilFailure_of_failed {e : Exchange} {x : RelayError} (es : List Exchange)
    (h : e.failure? = some x) : untilFailure (e :: es) = [e] := by
  simp [untilFailure, h]

theorem untilFailure_of_done {e : Exchange} (es : List Exchange) (h : e.failure? = none) :
    untilFailure (e :: es) = e :: untilFailure es := by
  simp [untilFailure, h]

/-- Some calls are made on trial with the exchanges `es`, which say what is left of the
records of `l` and what is counted. -/
def Plays (calls : List Call) (t : Trial) (l : Ledger) (es : List Exchange) : Prop :=
  (through a calls).run.transcript Trial.answer t = es ∧
    ((through a calls).run.run Trial.answer t).2.around.store =
      .ledger .plain (l.without (es.filterMap Exchange.deleted?)) ∧
    ((through a calls).run.run Trial.answer t).2.around.metrics =
      t.around.metrics.after (es.filterMap Exchange.counted?)

variable {call : Call} {reply : call.Answer} {t t' : Trial} {es : List Exchange}

/-- A call that fails leaves everything as it is. -/
theorem plays_of_failed {x : RelayError} (calls : List Call)
    (hanswer : Trial.answer call t = (reply, t'))
    (hfailed : Exchange.failure? ⟨call, reply⟩ = some x)
    (hstore : t'.around.store = .ledger .plain l)
    (hmetrics : t'.around.metrics = t.around.metrics) :
    Plays a (call :: calls) t l [⟨call, reply⟩] := by
  have hfirst : Exchange.failure? ⟨call, (Trial.answer call t).1⟩ = some x := by
    rw [hanswer]
    exact hfailed
  obtain ⟨hrun, hexchanges⟩ := run_through_of_failed Trial.answer a calls hfirst
  rw [hanswer] at hrun hexchanges
  have hdeleted := deleted?_of_failed hfailed
  have hcounted := counted?_of_failed hfailed
  refine ⟨hexchanges, ?_, ?_⟩
  · rw [hrun, List.filterMap_cons_none hdeleted]
    simpa using hstore
  · rw [hrun, List.filterMap_cons_none hcounted]
    exact hmetrics

/-- A call that succeeds is followed by the others. -/
theorem plays_of_done {calls : List Call} (hanswer : Trial.answer call t = (reply, t'))
    (hdone : Exchange.failure? ⟨call, reply⟩ = none)
    (hmetrics : t'.around.metrics =
      t.around.metrics.after (Exchange.counted? ⟨call, reply⟩).toList)
    (hrest : Plays a calls t' (l.without (Exchange.deleted? ⟨call, reply⟩).toList) es) :
    Plays a (call :: calls) t l (⟨call, reply⟩ :: es) := by
  have hfirst : Exchange.failure? ⟨call, (Trial.answer call t).1⟩ = none := by
    rw [hanswer]
    exact hdone
  obtain ⟨hrun, hexchanges⟩ := run_through_of_done Trial.answer a calls hfirst
  rw [hanswer] at hrun hexchanges
  obtain ⟨htranscript, hstore, hcount⟩ := hrest
  refine ⟨?_, ?_, ?_⟩
  · rw [hexchanges, htranscript]
  · rw [hrun, hstore, Ledger.without_without]
    cases hdeleted : Exchange.deleted? ⟨call, reply⟩ with
    | none => simp [hdeleted]
    | some c => simp [hdeleted]
  · rw [hrun, hcount, hmetrics]
    cases hcounted : Exchange.counted? ⟨call, reply⟩ with
    | none => simp [hcounted, Metrics.after]
    | some c => simp [hcounted, Metrics.after]

/-- Posts, deletes and counts are made with the outcomes of their scripts until one
fails. -/
theorem plays_script (calls : List Call) (hwork : ∀ call ∈ calls, call.isWork = true)
    (hpending : ∀ c ∈ calls.filterMap Call.deleted?, c ∈ l.records)
    (hnodup : (calls.filterMap Call.deleted?).Nodup)
    (posts : List (Except SlackError PostResult)) (deletes : List (Option StoreError)) :
    Plays a calls ⟨around s l ⟨channels, listing, posts⟩, scan, deletes⟩ l
      (untilFailure (answered calls posts deletes)) := by
  induction calls generalizing s l posts deletes with
  | nil =>
      refine ⟨rfl, ?_, rfl⟩
      show Store.ledger .plain l = .ledger .plain (l.without [])
      rw [Ledger.without_nil]
  | cons call calls ih =>
      have hothers : ∀ call ∈ calls, call.isWork = true := fun c hc =>
        hwork c (List.mem_cons_of_mem call hc)
      cases call with
      | post channel name payload =>
          have hanswer := answer_post s scan l channels listing channel name payload posts
            deletes
          cases hdone :
              Exchange.failure? ⟨.post channel name payload, posts.headD (.ok .ok)⟩ with
          | some x =>
              rw [answered, untilFailure_of_failed _ hdone]
              exact plays_of_failed a calls hanswer hdone rfl rfl
          | none =>
              rw [answered, untilFailure_of_done _ hdone]
              refine plays_of_done a hanswer hdone rfl ?_
              rw [show Exchange.deleted? ⟨.post channel name payload, _⟩ = none from rfl,
                Option.toList_none, Ledger.without_nil]
              exact ih hothers hpending hnodup _ _
      | delete c =>
          have hc : c ∈ l.records := hpending c (by simp [Call.deleted?])
          cases hhead : deletes.headD none with
          | some e =>
              have hanswer := answer_delete_failed s scan l c ⟨channels, listing, posts⟩ hhead
              have hfailed : Exchange.failure? ⟨.delete c, .error e⟩ = some (.store e) := rfl
              rw [answered, hhead, deletion, untilFailure_of_failed _ hfailed]
              exact plays_of_failed a calls hanswer hfailed rfl rfl
          | none =>
              have hanswer := answer_delete_done s scan l ⟨channels, listing, posts⟩ hc hhead
              have hdone : Exchange.failure? ⟨.delete c, .ok ()⟩ = none := rfl
              rw [answered, hhead, deletion, untilFailure_of_done _ hdone]
              refine plays_of_done a hanswer hdone rfl (ih hothers ?_ ?_ _ _)
              · intro d hd
                have hcons : ((Call.delete c) :: calls).filterMap Call.deleted? =
                  c :: calls.filterMap Call.deleted? := rfl
                rw [hcons] at hpending hnodup
                refine Ledger.mem_without.2 ⟨hpending d (List.mem_cons_of_mem c hd), ?_⟩
                intro hdc
                rw [List.mem_singleton.1 hdc] at hd
                exact (List.nodup_cons.1 hnodup).1 hd
              · exact (List.nodup_cons.1 hnodup).2
      | count family value =>
          have hanswer := answer_count s scan l channels listing family value posts deletes
          have hdone : Exchange.failure? ⟨.count family value, ()⟩ = none := rfl
          rw [answered, untilFailure_of_done _ hdone]
          refine plays_of_done a hanswer hdone rfl ?_
          rw [Exchange.deleted?_count, Option.toList_none, Ledger.without_nil]
          exact ih hothers hpending hnodup _ _
      | _ => exact absurd (hwork _ List.mem_cons_self) (by simp [Call.isWork])

end Script

/-- Counts never fail, so leaving them out does not change where the exchanges end. -/
theorem filter_untilFailure_answered (calls : List Call)
    (posts : List (Except SlackError PostResult)) (deletes : List (Option StoreError)) :
    (untilFailure (answered calls posts deletes)).filter Exchange.isStep =
      untilFailure (answered (calls.filter Call.isStep) posts deletes) := by
  have hstep : ∀ (e : Exchange) (es es' : List Exchange), e.isStep = true →
      (untilFailure es).filter Exchange.isStep = untilFailure es' →
      (untilFailure (e :: es)).filter Exchange.isStep = untilFailure (e :: es') := by
    intro e es es' he hrest
    cases hfailure : e.failure? with
    | none =>
        rw [untilFailure_of_done _ hfailure, untilFailure_of_done _ hfailure,
          List.filter_cons_of_pos he, hrest]
    | some x =>
        rw [untilFailure_of_failed _ hfailure, untilFailure_of_failed _ hfailure,
          List.filter_cons_of_pos he]
        rfl
  induction calls generalizing posts deletes with
  | nil => rfl
  | cons call calls ih =>
      cases call with
      | post channel name payload => exact hstep _ _ _ rfl (ih _ _)
      | delete c => exact hstep _ _ _ rfl (ih _ _)
      | count family value =>
          rw [answered, untilFailure_of_done _ rfl]
          exact ih posts deletes
      | _ => exact ih posts deletes

/-! ## Whole passes -/

section Pass

variable (ops : String) {s : Surroundings} {l : Ledger} (channels : List Channel)

/-- A pass that can read the records and the channels carries out its plan. -/
theorem planned_pass (hstore : s.store = .ledger .plain l)
    (posts : List (Except SlackError PostResult)) (deletes : List (Option StoreError)) :
    let start := s.facing channels ⟨none, none, posts, deletes⟩
    let plan := Plan.of l.records channels
    ∃ es x, (pass ops).run.transcript Trial.answer start =
        ⟨.scan, .ok l.records⟩ :: ⟨.listChannels, .ok channels⟩ :: es ∧
      es = untilFailure (answered (plan.tasks.flatMap (Task.calls ops)) posts deletes) ∧
      Worked ops plan.tasks es x ∧
      ((pass ops).run.run Trial.answer start).1 =
        (match x with
        | none => .ok plan.report
        | some e => .error e) ∧
      ((pass ops).run.run Trial.answer start).2.around.store =
        .ledger .plain (l.without (es.filterMap Exchange.deleted?)) ∧
      ((pass ops).run.run Trial.answer start).2.around.metrics =
        s.metrics.after (es.filterMap Exchange.counted?) := by
  intro start plan
  have hstart : start = ⟨around s l ⟨channels, none, posts⟩, none, deletes⟩ :=
    facing_eq hstore channels _
  have hrun : (pass ops).run.run Trial.answer start =
      (through plan.report (plan.tasks.flatMap (Task.calls ops))).run.run Trial.answer start := by
    rw [run_pass, hstart]
    rfl
  have htranscript : (pass ops).run.transcript Trial.answer start =
      ⟨.scan, .ok l.records⟩ :: ⟨.listChannels, .ok channels⟩ ::
        (through plan.report (plan.tasks.flatMap (Task.calls ops))).run.transcript
          Trial.answer start := by
    rw [run_pass, hstart]
    rfl
  have hretired : (plan.tasks.flatMap (Task.calls ops)).filterMap Call.deleted? =
      plan.retired := by
    rw [filterMap_deleted?_calls, Plan.filterMap_record?_tasks]
  have hplays : Plays plan.report (plan.tasks.flatMap (Task.calls ops)) start l
      (untilFailure (answered (plan.tasks.flatMap (Task.calls ops)) posts deletes)) := by
    rw [hstart]
    exact plays_script plan.report _ (isWork_of_mem_calls ops plan.tasks)
      (fun c hc => (Plan.mem_retired.1 (hretired ▸ hc)).1)
      (hretired ▸ Plan.retired_nodup l channels) posts deletes
  obtain ⟨hexchanges, hrecords, hcounters⟩ := hplays
  obtain ⟨x, hworked, hresult⟩ := worked_transcript Trial.answer plan.report ops plan.tasks start
  refine ⟨_, x, htranscript, hexchanges, hworked, hrun ▸ hresult, ?_, ?_⟩
  · rw [hrun, hexchanges]
    exact hrecords
  · rw [hrun, hexchanges, hcounters, hstart]

/-- A pass follows its plan from the first step on and stops at the first one that
fails, with the error of that step; it reports the plan exactly if none fails.  No
record is deleted that the operators have not been told of.  What is left are all
records but those of the finished tasks, and these are the ones that are counted. -/
theorem pass_on_trial (s : Surroundings) (l : Ledger)
    (posts : List (Except SlackError PostResult)) (deletes : List (Option StoreError))
    (past : List (Family × String)) :
    let before := { s with store := .ledger .plain l, metrics := Metrics.zero.after past }
    let start := before.facing channels ⟨none, none, posts, deletes⟩
    let plan := Plan.of l.records channels
    let made := ((pass ops).run.transcript Trial.answer start).filter Exchange.isStep
    let result := ((pass ops).run.run Trial.answer start).1
    let finish := ((pass ops).run.run Trial.answer start).2.around
    let done := finished plan.tasks made
    made = untilFailure (answered (plan.steps ops) posts deletes) ∧
    made.map Exchange.call <+: plan.steps ops ∧
    (∀ e ∈ made.dropLast, e.failure? = none) ∧
    (∀ error, result = .error error ↔
      ∃ e, made.getLast? = some e ∧ e.failure? = some error) ∧
    (∀ report, result = .ok report ↔
      (made.map Exchange.call = plan.steps ops ∧ ∀ e ∈ made, e.failure? = none) ∧
        report = plan.report) ∧
    (∀ before c answer after, made = before ++ ⟨.delete c, answer⟩ :: after →
      ∃ (earlier : List Exchange) (a : ArchivedRecord), a ∈ plan.archived ∧ a.record = c ∧
        before = earlier ++
          [⟨.post ops ops (Notice.payload (Notice.archived a)), .ok .ok⟩]) ∧
    finish.store = .ledger .plain (l.without (done.filterMap Task.record?)) ∧
    ∀ value, (finish.metrics.of .reconcileEvents).get value =
      (before.metrics.of .reconcileEvents).get value + done.countP (·.label = value) := by
  intro before start plan made result finish done
  obtain ⟨es, x, htranscript, hscript, hworked, hresult, hstore, hmetrics⟩ :=
    planned_pass ops (s := before) channels rfl posts deletes
  have hmade : made = es.filter Exchange.isStep := by
    show ((pass ops).run.transcript Trial.answer start).filter Exchange.isStep = _
    rw [htranscript]
    rfl
  refine ⟨?_, ?_, ?_, ?_, ?_, ?_, ?_, ?_⟩
  · rw [hmade, hscript, filter_untilFailure_answered, filter_isStep_calls]
    rfl
  · rw [hmade]
    exact hworked.calls_prefix
  · rw [hmade]
    exact hworked.dropLast_done
  · intro error
    rw [hmade, ← hworked.eq_some_iff error]
    show ((pass ops).run.run Trial.answer start).1 = _ ↔ _
    rw [hresult]
    cases x <;> simp
  · intro report
    rw [hmade]
    have hnone := hworked.eq_none_iff
    show ((pass ops).run.run Trial.answer start).1 = _ ↔ _
    rw [hresult]
    cases x with
    | none =>
        constructor
        · intro hreport
          exact ⟨hnone.1 rfl, (Except.ok.inj hreport).symm⟩
        · rintro ⟨-, rfl⟩
          rfl
    | some e =>
        constructor
        · intro hreport
          exact absurd hreport (by simp)
        · rintro ⟨hall, -⟩
          exact absurd (hnone.2 hall) (by simp)
  · intro before c answer after hsplit
    rw [hmade] at hsplit
    obtain ⟨earlier, a, ha, hrecord, hbefore⟩ := hworked.announced hsplit
    refine ⟨earlier, a, ?_, hrecord, hbefore⟩
    simpa [Plan.tasks] using ha
  · show ((pass ops).run.run Trial.answer start).2.around.store = _
    rw [hstore, hworked.deleted_eq, ← hmade]
  · intro value
    have hordered := Metrics.ordered_after Metrics.ordered_zero past
    show (((pass ops).run.run Trial.answer start).2.around.metrics.of _).get value = _
    rw [hmetrics, hordered.get_after, hworked.counted_eq, ← hmade, List.count, List.countP_map]
    refine congrArg (_ + ·) (List.countP_congr fun task _ => ?_)
    simp

end Pass

end Reconcile

end ChannelRelay
