import ChannelRelay.Proofs.Dialogue.Transcript
import ChannelRelay.Reconcile.Pass

/-!
# The agenda of a pass

Once a plan is made, a pass is a fixed list of calls, which are made one after the
other until one fails.  A plan is a list of tasks in a fixed order: first the
archived records, then the migrations, then the renamings.  Each task has two
steps, and is counted when both have succeeded.

`carryOut_eq` and `run_pass` say that a pass is this list of calls and nothing else.
-/

namespace ChannelRelay

namespace Exchange

/-- Why an exchange ends the operation that made it.  A message that was answered and
not delivered is a failure too. -/
def failure? : Exchange → Option RelayError
  | ⟨.query _, .error e⟩ => some (.store e)
  | ⟨.save _, .error e⟩ => some (.store e)
  | ⟨.delete _, .error e⟩ => some (.store e)
  | ⟨.scan, .error e⟩ => some (.store e)
  | ⟨.draw, .error e⟩ => some (.tokenGeneration e)
  | ⟨.listChannels, .error e⟩ => some (.slack e)
  | ⟨.conversation _, .error e⟩ => some (.slack e)
  | ⟨.post _ _ _, .error e⟩ => some (.slack e)
  | ⟨.post _ _ _, .ok result⟩ =>
    match result.delivered with
    | .ok _ => none
    | .error e => some (.slack e)
  | _ => none

/-- Whether an exchange is a post or a delete. -/
def isStep : Exchange → Bool
  | ⟨.post _ _ _, _⟩ | ⟨.delete _, _⟩ => true
  | _ => false

/-- What an exchange counted. -/
def counted? : Exchange → Option (Family × String)
  | ⟨.count family value, _⟩ => some (family, value)
  | _ => none

@[simp] theorem isStep_count (family : Family) (value : String) (answer : Unit) :
    isStep ⟨.count family value, answer⟩ = false :=
  rfl

@[simp] theorem counted?_count (family : Family) (value : String) (answer : Unit) :
    counted? ⟨.count family value, answer⟩ = some (family, value) :=
  rfl

@[simp] theorem deleted?_count (family : Family) (value : String) (answer : Unit) :
    deleted? ⟨.count family value, answer⟩ = none :=
  rfl

theorem post_delivered_iff {channel name : String} {payload : Json.Members}
    {answer : Except SlackError PostResult} :
    failure? ⟨.post channel name payload, answer⟩ = none ↔ answer = .ok .ok := by
  cases answer with
  | error e => simp [failure?]
  | ok result => cases result <;> simp [failure?, PostResult.delivered]

theorem delete_done_iff {c : Credential} {answer : Except StoreError Unit} :
    failure? ⟨.delete c, answer⟩ = none ↔ answer = .ok () := by
  cases answer with
  | error e => simp [failure?]
  | ok u => simp [failure?]

end Exchange

/-- The record that a call wants deleted. -/
def Call.deleted? : Call → Option Credential
  | .delete c => some c
  | _ => none

/-- Whether a call is a post, a delete or a count. -/
def Call.isWork : Call → Bool
  | .post _ _ _ | .delete _ | .count _ _ => true
  | _ => false

/-- Whether a call is a post or a delete. -/
def Call.isStep : Call → Bool
  | .post _ _ _ | .delete _ => true
  | _ => false

namespace Operation

variable {α β : Type}

/-- Makes some calls one after the other until one fails; `a` is what comes of it if
none does. -/
def through (a : α) : List Call → Operation α
  | [] => pure a
  | call :: calls => ExceptT.mk (.ask call fun answer =>
      match Exchange.failure? ⟨call, answer⟩ with
      | none => (through a calls).run
      | some e => .done (.error e))

/-- What comes after some calls goes on where they end. -/
theorem through_bind (a : α) (calls : List Call) (f : α → Operation β) (b : β)
    (more : List Call) (hf : f a = through b more) :
    (through a calls >>= f) = through b (calls ++ more) := by
  induction calls with
  | nil => exact hf
  | cons call calls ih =>
      refine congrArg (Dialogue.ask call) (funext fun answer => ?_)
      show Dialogue.bind (match Exchange.failure? ⟨call, answer⟩ with
        | none => (through a calls).run
        | some e => .done (.error e)) (ExceptT.bindCont f) =
          match Exchange.failure? ⟨call, answer⟩ with
          | none => (through b (calls ++ more)).run
          | some e => .done (.error e)
      cases Exchange.failure? ⟨call, answer⟩ with
      | none => exact ih
      | some e => rfl

theorem map_through (f : α → β) (a : α) (calls : List Call) :
    f <$> through a calls = through (f a) calls := by
  have h := through_bind a calls (fun a => pure (f a)) (f a) [] rfl
  rw [List.append_nil] at h
  rw [← h]
  rfl

theorem delete_eq_through (c : Credential) : delete c = through () [.delete c] := by
  refine congrArg (Dialogue.ask (.delete c)) (funext fun answer => ?_)
  cases answer with
  | error e => rfl
  | ok u => rfl

end Operation

namespace Reconcile

open Operation (through)

theorem notify_eq_through (channel channelName text : String) :
    notify channel channelName text =
      through () [.post channel channelName (Notice.payload text)] := by
  refine congrArg (Dialogue.ask (.post channel channelName (Notice.payload text)))
    (funext fun answer => ?_)
  cases answer with
  | error e => rfl
  | ok result => cases result <;> rfl

/-- Something that a plan says is to be done. -/
inductive Task where
  | archived (a : ArchivedRecord)
  | rotating (c : Credential)
  | renamed (r : Renaming)
deriving DecidableEq

namespace Task

/-- What is done first: the operators are told of an archived record, and of the
others their channel is. -/
def first (ops : String) : Task → Call
  | .archived a => .post ops ops (Notice.payload (Notice.archived a))
  | .rotating c => .post c.channelId c.channelName (Notice.payload (Notice.migration c))
  | .renamed r => .post r.channelId r.newName (Notice.payload (Notice.rename r))

/-- What is done second: an archived record is deleted, and of the others the operators
are told. -/
def second (ops : String) : Task → Call
  | .archived a => .delete a.record
  | .rotating c => .post ops ops (Notice.payload (Notice.migrationToOps c))
  | .renamed r => .post ops ops (Notice.payload (Notice.renamingToOps r))

/-- What a task is counted as. -/
def label : Task → String
  | .archived _ => "archived"
  | .rotating _ => "migration"
  | .renamed _ => "renamed"

/-- The record that a task deletes. -/
def record? : Task → Option Credential
  | .archived a => some a.record
  | _ => none

/-- The posts and deletes of a task. -/
def steps (ops : String) (task : Task) : List Call := [task.first ops, task.second ops]

/-- All calls of a task. -/
def calls (ops : String) (task : Task) : List Call :=
  task.steps ops ++ [.count .reconcileEvents task.label]

end Task

end Reconcile

namespace Plan

open Reconcile

/-- The tasks of a plan in their order. -/
def tasks (plan : Plan) : List Task :=
  plan.archived.map .archived ++ plan.migrations.map .rotating ++ plan.renames.map .renamed

/-- The posts and deletes of a plan in their order. -/
def steps (ops : String) (plan : Plan) : List Call := plan.tasks.flatMap (Task.steps ops)

/-- The records that a plan deletes. -/
def retired (plan : Plan) : List Credential := plan.archived.map ArchivedRecord.record

/-- What is reported of a plan that was carried out. -/
def report (plan : Plan) : Report :=
  ⟨plan.archived.length, plan.migrations.length, plan.renames.length⟩

theorem filterMap_record?_tasks (plan : Plan) :
    plan.tasks.filterMap Task.record? = plan.retired := by
  have harchived : (plan.archived.map Task.archived).filterMap Task.record? = plan.retired := by
    rw [List.filterMap_map]
    exact congrFun (List.filterMap_eq_map' (f := ArchivedRecord.record)) plan.archived
  have hmigrations : (plan.migrations.map Task.rotating).filterMap Task.record? = [] := by
    rw [List.filterMap_map]
    exact List.filterMap_eq_nil_iff.2 fun _ _ => rfl
  have hrenames : (plan.renames.map Task.renamed).filterMap Task.record? = [] := by
    rw [List.filterMap_map]
    exact List.filterMap_eq_nil_iff.2 fun _ _ => rfl
  rw [tasks, List.filterMap_append, List.filterMap_append, harchived, hmigrations, hrenames,
    List.append_nil, List.append_nil]

end Plan

namespace Reconcile

open Operation (through through_bind)

/-- Three operations in a row, if each is one call. -/
theorem through_task {x y z : Operation Unit} {a b c : Call} (hx : x = through () [a])
    (hy : y = through () [b]) (hz : z = through () [c]) :
    (do x; y; z) = through () [a, b, c] := by
  subst hx hy hz
  exact through_bind () [a] _ () [b, c] (through_bind () [b] _ () [c] rfl)

theorem each_eq_through {α : Type} (step : α → Operation Unit) (calls : α → List Call)
    (hstep : ∀ a, step a = through () (calls a)) (as : List α) :
    each step as = through () (as.flatMap calls) := by
  induction as with
  | nil => rfl
  | cons a as ih =>
      rw [List.flatMap_cons]
      show (step a >>= fun _ => each step as) = _
      rw [hstep a]
      exact through_bind () (calls a) _ () _ ih

/-- Carrying out a plan is making the calls of its tasks. -/
theorem carryOut_eq (ops : String) (plan : Plan) :
    carryOut ops plan = through plan.report (plan.tasks.flatMap (Task.calls ops)) := by
  have harchived := each_eq_through (retire ops) (Task.calls ops ∘ .archived)
    (fun a => through_task (notify_eq_through ..) (Operation.delete_eq_through _) rfl)
    plan.archived
  have hmigrations := each_eq_through (announceMigration ops) (Task.calls ops ∘ .rotating)
    (fun c => through_task (notify_eq_through ..) (notify_eq_through ..) rfl) plan.migrations
  have hrenames := each_eq_through (announceRenaming ops) (Task.calls ops ∘ .renamed)
    (fun r => through_task (notify_eq_through ..) (notify_eq_through ..) rfl) plan.renames
  unfold carryOut
  rw [harchived, hmigrations, hrenames, Plan.tasks, List.flatMap_append, List.flatMap_append,
    List.flatMap_map, List.flatMap_map, List.flatMap_map, List.append_assoc]
  refine through_bind () _ _ plan.report _ (through_bind () _ _ plan.report _ ?_)
  have h := through_bind () (plan.renames.flatMap (Task.calls ops ∘ .renamed))
    (fun _ => pure plan.report) plan.report [] rfl
  rw [List.append_nil] at h
  exact h

/-- A pass as the calls that it makes. -/
theorem run_pass (ops : String) :
    (pass ops).run = .ask .scan fun scanned =>
      match scanned with
      | .error e => .done (.error (.store e))
      | .ok records => .ask .listChannels fun listed =>
        match listed with
        | .error e => .done (.error (.slack e))
        | .ok channels =>
          let plan := Plan.of records channels
          (through plan.report (plan.tasks.flatMap (Task.calls ops))).run := by
  refine congrArg (Dialogue.ask .scan) (funext fun scanned => ?_)
  cases scanned with
  | error e => rfl
  | ok records =>
      refine congrArg (Dialogue.ask .listChannels) (funext fun listed => ?_)
      cases listed with
      | error e => rfl
      | ok channels => exact congrArg ExceptT.run (carryOut_eq ops (Plan.of records channels))

section Calls

variable (ops : String) (tasks : List Task)

theorem isWork_of_mem_calls : ∀ call ∈ tasks.flatMap (Task.calls ops), call.isWork = true := by
  intro call hcall
  obtain ⟨task, -, hcall⟩ := List.mem_flatMap.1 hcall
  have hthree : call = task.first ops ∨ call = task.second ops ∨
      call = .count .reconcileEvents task.label := by
    simpa [Task.calls, Task.steps] using hcall
  rcases hthree with rfl | rfl | rfl
  · cases task <;> rfl
  · cases task <;> rfl
  · rfl

theorem filterMap_deleted?_calls :
    (tasks.flatMap (Task.calls ops)).filterMap Call.deleted? =
      tasks.filterMap Task.record? := by
  induction tasks with
  | nil => rfl
  | cons task tasks ih =>
      rw [List.flatMap_cons, List.filterMap_append, ih]
      cases task <;> rfl

theorem filter_isStep_calls :
    (tasks.flatMap (Task.calls ops)).filter Call.isStep = tasks.flatMap (Task.steps ops) := by
  rw [List.filter_flatMap]
  refine congrArg (tasks.flatMap ·) (funext fun task => ?_)
  cases task <;> rfl

end Calls

end Reconcile

end ChannelRelay
