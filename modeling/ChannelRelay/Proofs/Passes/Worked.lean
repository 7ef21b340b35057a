import ChannelRelay.Proofs.Passes.Agenda

/-!
# Exchanges on an agenda

However the calls of some tasks are answered, the tasks are worked on in their order, and
at most one of them breaks off (`worked_transcript`).  So the steps that are made are the
first ones of the agenda, and only the last one of them can have failed; and what is
deleted and what is counted are the tasks of which both steps have succeeded.
-/

namespace ChannelRelay

namespace Reconcile

open Operation (through)

/-- The exchanges of some tasks, with the failure that they ended in.  A task breaks off
at its first or at its second step, and nothing comes after it. -/
inductive Worked (ops : String) : List Task → List Exchange → Option RelayError → Prop where
  | nil : Worked ops [] [] none
  | first {task : Task} {tasks : List Task} {e : Exchange} {x : RelayError}
      (hcall : e.call = task.first ops) (hfailed : e.failure? = some x) :
      Worked ops (task :: tasks) [e] (some x)
  | second {task : Task} {tasks : List Task} {e f : Exchange} {x : RelayError}
      (hcall : e.call = task.first ops) (hdone : e.failure? = none)
      (hcall' : f.call = task.second ops) (hfailed : f.failure? = some x) :
      Worked ops (task :: tasks) [e, f] (some x)
  | both {task : Task} {tasks : List Task} {e f : Exchange} {es : List Exchange}
      {x : Option RelayError} (hcall : e.call = task.first ops) (hdone : e.failure? = none)
      (hcall' : f.call = task.second ops) (hdone' : f.failure? = none)
      (hrest : Worked ops tasks es x) :
      Worked ops (task :: tasks) (e :: f :: ⟨.count .reconcileEvents task.label, ()⟩ :: es) x

/-- The tasks whose two steps have both succeeded. -/
def finished : List Task → List Exchange → List Task
  | task :: tasks, e :: f :: steps =>
    if e.failure?.isNone && f.failure?.isNone then task :: finished tasks steps
    else finished tasks steps
  | _, _ => []

section Runs

variable {α σ : Type} (answer : (c : Call) → σ → c.Answer × σ) (a : α)

/-- A call that fails is the last one. -/
theorem run_through_of_failed {call : Call} {s : σ} {x : RelayError} (calls : List Call)
    (hfailed : Exchange.failure? ⟨call, (answer call s).1⟩ = some x) :
    (through a (call :: calls)).run.run answer s = (.error x, (answer call s).2) ∧
      (through a (call :: calls)).run.transcript answer s = [⟨call, (answer call s).1⟩] := by
  simp [through, Dialogue.run, Dialogue.transcript, hfailed]

/-- A call that succeeds is followed by the next one. -/
theorem run_through_of_done {call : Call} {s : σ} (calls : List Call)
    (hdone : Exchange.failure? ⟨call, (answer call s).1⟩ = none) :
    (through a (call :: calls)).run.run answer s =
        (through a calls).run.run answer (answer call s).2 ∧
      (through a (call :: calls)).run.transcript answer s =
        ⟨call, (answer call s).1⟩ ::
          (through a calls).run.transcript answer (answer call s).2 := by
  simp [through, Dialogue.run, Dialogue.transcript, hdone]

/-- However the calls of some tasks are answered, they are worked on in their order, and
the result tells what they ended in. -/
theorem worked_transcript (ops : String) (tasks : List Task) (s : σ) :
    ∃ x, Worked ops tasks
        ((through a (tasks.flatMap (Task.calls ops))).run.transcript answer s) x ∧
      ((through a (tasks.flatMap (Task.calls ops))).run.run answer s).1 =
        match x with
        | none => .ok a
        | some e => .error e := by
  induction tasks generalizing s with
  | nil => exact ⟨none, .nil, rfl⟩
  | cons task tasks ih =>
      have hcalls : (task :: tasks).flatMap (Task.calls ops) = task.first ops ::
          task.second ops :: .count .reconcileEvents task.label ::
            tasks.flatMap (Task.calls ops) := rfl
      rw [hcalls]
      cases hfirst : Exchange.failure? ⟨task.first ops, (answer (task.first ops) s).1⟩ with
      | some x =>
          obtain ⟨hrun, hexchanges⟩ := run_through_of_failed answer a _ hfirst
          exact ⟨some x, hexchanges ▸ .first rfl hfirst, by rw [hrun]⟩
      | none =>
          obtain ⟨hrun, hexchanges⟩ := run_through_of_done answer a _ hfirst
          rw [hrun, hexchanges]
          generalize (answer (task.first ops) s).2 = s₁
          cases hsecond : Exchange.failure?
              ⟨task.second ops, (answer (task.second ops) s₁).1⟩ with
          | some x =>
              obtain ⟨hrun, hexchanges⟩ := run_through_of_failed answer a _ hsecond
              exact ⟨some x, hexchanges ▸ .second rfl hfirst rfl hsecond, by rw [hrun]⟩
          | none =>
              obtain ⟨hrun, hexchanges⟩ := run_through_of_done answer a _ hsecond
              rw [hrun, hexchanges]
              generalize (answer (task.second ops) s₁).2 = s₂
              have hcount : Exchange.failure? ⟨.count .reconcileEvents task.label,
                  (answer (.count .reconcileEvents task.label) s₂).1⟩ = none := rfl
              obtain ⟨hrun, hexchanges⟩ := run_through_of_done answer a _ hcount
              rw [hrun, hexchanges]
              obtain ⟨x, hworked, hresult⟩ := ih _
              exact ⟨x, .both rfl hfirst rfl hsecond hworked, hresult⟩

end Runs

/-! ## One task -/

section Step

variable {ops : String} {task : Task} {e : Exchange}

theorem isStep_first (h : e.call = task.first ops) : e.isStep = true := by
  obtain ⟨call, answer⟩ := e
  cases task <;> · obtain rfl := h; rfl

theorem isStep_second (h : e.call = task.second ops) : e.isStep = true := by
  obtain ⟨call, answer⟩ := e
  cases task <;> · obtain rfl := h; rfl

theorem counted?_of_isStep (h : e.isStep = true) : e.counted? = none := by
  obtain ⟨call, answer⟩ := e
  cases call <;> first | rfl | exact absurd h (by simp [Exchange.isStep])

theorem deleted?_first (h : e.call = task.first ops) : e.deleted? = none := by
  obtain ⟨call, answer⟩ := e
  cases task <;> · obtain rfl := h; rfl

theorem deleted?_of_failed {x : RelayError} (h : e.failure? = some x) : e.deleted? = none := by
  cases hdeleted : e.deleted? with
  | none => rfl
  | some c =>
      rw [Exchange.deleted?_eq_some_iff.1 hdeleted] at h
      exact absurd h (by simp [Exchange.failure?])

theorem counted?_of_failed {x : RelayError} (h : e.failure? = some x) : e.counted? = none := by
  obtain ⟨call, answer⟩ := e
  cases call with
  | count family value => exact absurd h (by simp [Exchange.failure?])
  | _ => rfl

/-- A second step that succeeds deletes the record of its task, if that has one. -/
theorem deleted?_second (h : e.call = task.second ops) (hdone : e.failure? = none) :
    e.deleted? = task.record? := by
  obtain ⟨call, answer⟩ := e
  cases task with
  | archived a =>
      obtain rfl : call = .delete a.record := h
      obtain rfl := Exchange.delete_done_iff.1 hdone
      rfl
  | rotating c =>
      obtain rfl := h
      rfl
  | renamed r =>
      obtain rfl := h
      rfl

/-- Of the exchanges of a task those are steps that are not counts. -/
theorem filter_task {f : Exchange} (h : e.call = task.first ops) (h' : f.call = task.second ops)
    (es : List Exchange) :
    (e :: f :: ⟨.count .reconcileEvents task.label, ()⟩ :: es).filter Exchange.isStep =
      e :: f :: es.filter Exchange.isStep := by
  simp [isStep_first h, isStep_second h']

theorem filter_first (h : e.call = task.first ops) : [e].filter Exchange.isStep = [e] := by
  simp [isStep_first h]

theorem filter_second {f : Exchange} (h : e.call = task.first ops)
    (h' : f.call = task.second ops) : [e, f].filter Exchange.isStep = [e, f] := by
  simp [isStep_first h, isStep_second h']

theorem finished_of_done {f : Exchange} {tasks : List Task} {steps : List Exchange}
    (hdone : e.failure? = none) (hdone' : f.failure? = none) :
    finished (task :: tasks) (e :: f :: steps) = task :: finished tasks steps := by
  simp [finished, hdone, hdone']

theorem finished_of_failed {f : Exchange} {tasks : List Task} {x : RelayError}
    (hfailed : f.failure? = some x) : finished (task :: tasks) [e, f] = [] := by
  simp [finished, hfailed]

/-- A first step is a post. -/
theorem first_ne_delete (ops : String) (task : Task) (c : Credential) :
    task.first ops ≠ .delete c := by
  cases task <;> · intro h; cases h

/-- A second step that is a delete belongs to an archived record, and the first step
told the operators of it. -/
theorem told_of_delete {c : Credential} (hcall : e.call = task.first ops)
    (hdone : e.failure? = none) (hdelete : task.second ops = .delete c) :
    ∃ a, task = .archived a ∧ a.record = c ∧
      e = ⟨.post ops ops (Notice.payload (Notice.archived a)), .ok .ok⟩ := by
  obtain ⟨call, answer⟩ := e
  cases task with
  | archived a =>
      obtain rfl : call = .post ops ops (Notice.payload (Notice.archived a)) := hcall
      obtain rfl := Exchange.post_delivered_iff.1 hdone
      exact ⟨a, rfl, Call.delete.inj hdelete, rfl⟩
  | rotating c => cases hdelete
  | renamed r => cases hdelete

end Step

/-! ## Many tasks -/

namespace Worked

variable {ops : String} {tasks : List Task} {es : List Exchange} {x : Option RelayError}

/-- The posts and deletes that are made are those of the tasks, from the first on, and
without a failure all of them are made. -/
theorem exists_calls (h : Worked ops tasks es x) :
    ∃ rest, tasks.flatMap (Task.steps ops) =
        (es.filter Exchange.isStep).map Exchange.call ++ rest ∧ (x = none → rest = []) := by
  induction h with
  | nil => exact ⟨[], rfl, fun _ => rfl⟩
  | @first task tasks e x hcall hfailed =>
      refine ⟨task.second ops :: tasks.flatMap (Task.steps ops), ?_, fun h => absurd h (by simp)⟩
      rw [filter_first hcall, List.map_singleton, hcall]
      rfl
  | @second task tasks e f x hcall hdone hcall' hfailed =>
      refine ⟨tasks.flatMap (Task.steps ops), ?_, fun h => absurd h (by simp)⟩
      rw [filter_second hcall hcall', List.map_cons, List.map_singleton, hcall, hcall']
      rfl
  | @both task tasks e f es x hcall hdone hcall' hdone' hrest ih =>
      obtain ⟨rest, hcalls, hall⟩ := ih
      refine ⟨rest, ?_, hall⟩
      rw [filter_task hcall hcall', List.flatMap_cons, hcalls, List.map_cons, List.map_cons, hcall,
        hcall']
      rfl

theorem calls_prefix (h : Worked ops tasks es x) :
    (es.filter Exchange.isStep).map Exchange.call <+: tasks.flatMap (Task.steps ops) := by
  obtain ⟨rest, hcalls, -⟩ := h.exists_calls
  exact ⟨rest, hcalls.symm⟩

theorem calls_eq (h : Worked ops tasks es none) :
    (es.filter Exchange.isStep).map Exchange.call = tasks.flatMap (Task.steps ops) := by
  obtain ⟨rest, hcalls, hall⟩ := h.exists_calls
  rw [hcalls, hall rfl, List.append_nil]

/-- The tasks are finished in their order, and without a failure all of them are. -/
theorem exists_finished (h : Worked ops tasks es x) :
    ∃ rest, tasks = finished tasks (es.filter Exchange.isStep) ++ rest ∧
      (x = none → rest = []) := by
  induction h with
  | nil => exact ⟨[], rfl, fun _ => rfl⟩
  | @first task tasks e x hcall hfailed =>
      refine ⟨task :: tasks, ?_, fun h => absurd h (by simp)⟩
      rw [filter_first hcall]
      rfl
  | @second task tasks e f x hcall hdone hcall' hfailed =>
      refine ⟨task :: tasks, ?_, fun h => absurd h (by simp)⟩
      rw [filter_second hcall hcall', finished_of_failed hfailed, List.nil_append]
  | @both task tasks e f es x hcall hdone hcall' hdone' hrest ih =>
      obtain ⟨rest, htasks, hall⟩ := ih
      refine ⟨rest, ?_, hall⟩
      rw [filter_task hcall hcall', finished_of_done hdone hdone', List.cons_append, ← htasks]

theorem finished_prefix (h : Worked ops tasks es x) :
    finished tasks (es.filter Exchange.isStep) <+: tasks := by
  obtain ⟨rest, htasks, -⟩ := h.exists_finished
  exact ⟨rest, htasks.symm⟩

theorem finished_eq (h : Worked ops tasks es none) :
    finished tasks (es.filter Exchange.isStep) = tasks := by
  obtain ⟨rest, htasks, hall⟩ := h.exists_finished
  rw [hall rfl, List.append_nil] at htasks
  exact htasks.symm

/-- The steps that fail are the last one, if any. -/
theorem failures (h : Worked ops tasks es x) :
    ∃ done : List Exchange, (∀ e ∈ done, e.failure? = none) ∧
      match x with
      | none => es.filter Exchange.isStep = done
      | some error => ∃ last, last.failure? = some error ∧
          es.filter Exchange.isStep = done ++ [last] := by
  induction h with
  | nil => exact ⟨[], by simp, rfl⟩
  | @first task tasks e x hcall hfailed =>
      exact ⟨[], by simp, e, hfailed, filter_first hcall⟩
  | @second task tasks e f x hcall hdone hcall' hfailed =>
      exact ⟨[e], by simpa using hdone, f, hfailed, filter_second hcall hcall'⟩
  | @both task tasks e f es x hcall hdone hcall' hdone' hrest ih =>
      obtain ⟨done, hall, hend⟩ := ih
      refine ⟨e :: f :: done, by simpa [hdone, hdone'] using hall, ?_⟩
      rw [filter_task hcall hcall']
      cases x with
      | none =>
          have hsteps : es.filter Exchange.isStep = done := hend
          exact congrArg (e :: f :: ·) hsteps
      | some error =>
          obtain ⟨last, hlast, hsteps⟩ := hend
          exact ⟨last, hlast, congrArg (e :: f :: ·) hsteps⟩

/-- No step that fails is followed by another one. -/
theorem dropLast_done (h : Worked ops tasks es x) :
    ∀ e ∈ (es.filter Exchange.isStep).dropLast, e.failure? = none := by
  obtain ⟨done, hdone, hend⟩ := h.failures
  cases x with
  | none =>
      have hsteps : es.filter Exchange.isStep = done := hend
      intro e he
      rw [hsteps] at he
      exact hdone e ((List.dropLast_sublist done).subset he)
  | some error =>
      obtain ⟨last, -, hsteps⟩ := hend
      rw [hsteps, List.dropLast_concat]
      exact hdone

/-- What the tasks ended in is the failure of the last step. -/
theorem eq_some_iff (h : Worked ops tasks es x) (error : RelayError) :
    x = some error ↔
      ∃ e, (es.filter Exchange.isStep).getLast? = some e ∧ e.failure? = some error := by
  obtain ⟨done, hdone, hend⟩ := h.failures
  cases x with
  | none =>
      have hsteps : es.filter Exchange.isStep = done := hend
      constructor
      · intro habsurd
        exact absurd habsurd (by simp)
      · rintro ⟨e, he, hfailed⟩
        rw [hsteps] at he
        rw [hdone e (List.mem_of_getLast? he)] at hfailed
        exact absurd hfailed (by simp)
  | some error' =>
      obtain ⟨last, hlast, hsteps⟩ := hend
      rw [hsteps, List.getLast?_concat]
      constructor
      · intro hsame
        exact ⟨last, rfl, hlast.trans hsame⟩
      · rintro ⟨e, he, hfailed⟩
        obtain rfl := Option.some.inj he
        exact hlast.symm.trans hfailed

/-- The tasks end without a failure exactly if all their steps are made and succeed. -/
theorem eq_none_iff (h : Worked ops tasks es x) :
    x = none ↔
      (es.filter Exchange.isStep).map Exchange.call = tasks.flatMap (Task.steps ops) ∧
        ∀ e ∈ es.filter Exchange.isStep, e.failure? = none := by
  constructor
  · rintro rfl
    obtain ⟨done, hdone, hsteps⟩ := h.failures
    refine ⟨h.calls_eq, fun e he => ?_⟩
    exact hdone e (hsteps ▸ he)
  · rintro ⟨-, hall⟩
    cases hx : x with
    | none => rfl
    | some error =>
        obtain ⟨e, he, hfailed⟩ := (h.eq_some_iff error).1 hx
        rw [hall e (List.mem_of_getLast? he)] at hfailed
        exact absurd hfailed (by simp)

/-- The records that are deleted are those of the finished tasks. -/
theorem deleted_eq (h : Worked ops tasks es x) :
    es.filterMap Exchange.deleted? =
      (finished tasks (es.filter Exchange.isStep)).filterMap Task.record? := by
  induction h with
  | nil => rfl
  | @first task tasks e x hcall hfailed =>
      rw [filter_first hcall]
      simp [deleted?_first hcall, finished]
  | @second task tasks e f x hcall hdone hcall' hfailed =>
      rw [filter_second hcall hcall', finished_of_failed hfailed]
      simp [deleted?_first hcall, deleted?_of_failed hfailed]
  | @both task tasks e f es x hcall hdone hcall' hdone' hrest ih =>
      rw [filter_task hcall hcall', finished_of_done hdone hdone']
      simp [deleted?_first hcall, deleted?_second hcall' hdone', ih, List.filterMap_cons]

/-- What is counted are the finished tasks. -/
theorem counted_eq (h : Worked ops tasks es x) :
    es.filterMap Exchange.counted? =
      (finished tasks (es.filter Exchange.isStep)).map fun task =>
        (.reconcileEvents, task.label) := by
  induction h with
  | nil => rfl
  | @first task tasks e x hcall hfailed =>
      rw [filter_first hcall]
      simp [counted?_of_isStep (isStep_first hcall), finished]
  | @second task tasks e f x hcall hdone hcall' hfailed =>
      rw [filter_second hcall hcall', finished_of_failed hfailed]
      simp [counted?_of_isStep (isStep_first hcall), counted?_of_isStep (isStep_second hcall')]
  | @both task tasks e f es x hcall hdone hcall' hdone' hrest ih =>
      rw [filter_task hcall hcall', finished_of_done hdone hdone']
      simp [counted?_of_isStep (isStep_first hcall), counted?_of_isStep (isStep_second hcall'), ih]

/-- Before a record is deleted the operators have been told of it. -/
theorem announced (h : Worked ops tasks es x) {before after : List Exchange} {c : Credential}
    {answer : Except StoreError Unit}
    (hsplit : es.filter Exchange.isStep = before ++ ⟨.delete c, answer⟩ :: after) :
    ∃ (earlier : List Exchange) (a : ArchivedRecord), .archived a ∈ tasks ∧ a.record = c ∧
      before = earlier ++ [⟨.post ops ops (Notice.payload (Notice.archived a)), .ok .ok⟩] := by
  induction h generalizing before with
  | nil => exact absurd hsplit (by simp)
  | @first task tasks e x hcall hfailed =>
      rw [filter_first hcall] at hsplit
      cases before with
      | nil =>
          obtain ⟨rfl, -⟩ := List.cons.inj hsplit
          exact absurd hcall.symm (first_ne_delete ops task c)
      | cons b before => exact absurd hsplit (by simp)
  | @second task tasks e f x hcall hdone hcall' hfailed =>
      rw [filter_second hcall hcall'] at hsplit
      rcases before with - | ⟨b, - | ⟨b', before⟩⟩
      · obtain ⟨rfl, -⟩ := List.cons.inj hsplit
        exact absurd hcall.symm (first_ne_delete ops task c)
      · obtain ⟨rfl, htail⟩ := List.cons.inj hsplit
        obtain ⟨rfl, -⟩ := List.cons.inj htail
        obtain ⟨a, rfl, hrecord, rfl⟩ := told_of_delete hcall hdone hcall'.symm
        exact ⟨[], a, List.mem_cons_self, hrecord, rfl⟩
      · exact absurd hsplit (by simp)
  | @both task tasks e f es x hcall hdone hcall' hdone' hrest ih =>
      rw [filter_task hcall hcall'] at hsplit
      rcases before with - | ⟨b, - | ⟨b', before⟩⟩
      · obtain ⟨rfl, -⟩ := List.cons.inj hsplit
        exact absurd hcall.symm (first_ne_delete ops task c)
      · obtain ⟨rfl, htail⟩ := List.cons.inj hsplit
        obtain ⟨rfl, -⟩ := List.cons.inj htail
        obtain ⟨a, rfl, hrecord, rfl⟩ := told_of_delete hcall hdone hcall'.symm
        exact ⟨[], a, List.mem_cons_self, hrecord, rfl⟩
      · -- The record belongs to a later task.
        obtain ⟨rfl, htail⟩ := List.cons.inj hsplit
        obtain ⟨rfl, hrest⟩ := List.cons.inj htail
        obtain ⟨earlier, a, ha, hrecord, rfl⟩ := ih hrest
        exact ⟨_ :: _ :: earlier, a, List.mem_cons_of_mem _ ha, hrecord, rfl⟩

end Worked

end Reconcile

end ChannelRelay
