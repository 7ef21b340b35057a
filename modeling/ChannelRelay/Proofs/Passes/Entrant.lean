import ChannelRelay.Proofs.Clients.Pool
import ChannelRelay.Proofs.Passes.Plan

/-!
# Passes among others

How far a pass has got that makes its calls while others make theirs, as a stage that says
what is left of it (`Entrant.rest`) and which records it has still to delete
(`Entrant.todo?`).  `Entrant.Fits` is what is known of a pass at any time: the records that
are left are an end of those that it has still to delete, since the others may have deleted
the first ones of them.
-/

namespace ChannelRelay

/-- The records that were deleted, in the order of the deletes. -/
def deletedIn (history : List Turn) : List Credential :=
  history.filterMap (·.exchange.deleted?)

/-- A client asked for the deletion of a record that another one had deleted. -/
def Lost (client : Nat) (c : Credential) (history : List Turn) : Prop :=
  ∃ earlier t between u later, history = earlier ++ t :: (between ++ u :: later) ∧
    t.client ≠ client ∧ t.exchange = ⟨.delete c, .ok ()⟩ ∧
    u.client = client ∧ u.exchange = ⟨.delete c, .error (.noMatch c.channelName c.version)⟩

theorem Lost.append {client : Nat} {c : Credential} {history : List Turn}
    (h : Lost client c history) (more : List Turn) : Lost client c (history ++ more) := by
  obtain ⟨earlier, t, between, u, later, rfl, hrest⟩ := h
  exact ⟨earlier, t, between, u, later ++ more, by simp, hrest⟩

theorem mem_deletedIn {history : List Turn} {c : Credential} :
    c ∈ deletedIn history ↔ ∃ t ∈ history, t.exchange = ⟨.delete c, .ok ()⟩ := by
  simp only [deletedIn, List.mem_filterMap, Exchange.deleted?_eq_some_iff]

theorem deletedIn_append (history more : List Turn) :
    deletedIn (history ++ more) = deletedIn history ++ deletedIn more :=
  List.filterMap_append

/-- What a client has deleted itself was deleted. -/
theorem mem_deletedIn_of_own {client : Nat} {history : List Turn} {c : Credential}
    (hc : c ∈ (exchangesOf client history).filterMap Exchange.deleted?) :
    c ∈ deletedIn history := by
  obtain ⟨x, hx, hdeleted⟩ := List.mem_filterMap.1 hc
  obtain ⟨t, ht, -, rfl⟩ := mem_exchangesOf.1 hx
  exact List.mem_filterMap.2 ⟨t, ht, hdeleted⟩

/-! ## Stages of a pass -/

/-- How far a pass has got. -/
inductive Stage where
  | fresh
  | read (records : List Credential)
  | working (report : Reconcile.Report) (calls : List Call)
  | failed (c : Credential)

/-- A pass in a race. -/
structure Entrant where
  ops : String
  stage : Stage

namespace Entrant

/-- What is left of a pass that has read some records. -/
def afterScan (ops : String) (records : List Credential) :
    Dialogue (Except RelayError Outcome) :=
  .ask .listChannels fun
    | .error e => .done (.error (.slack e))
    | .ok channels =>
      let plan := Plan.of records channels
      (Operation.through (.reported plan.report)
        (plan.tasks.flatMap (Reconcile.Task.calls ops))).run

/-- What is left of a pass. -/
def rest (e : Entrant) : Dialogue (Except RelayError Outcome) :=
  match e.stage with
  | .fresh => (Errand.pass e.ops).operation.run
  | .read records => afterScan e.ops records
  | .working report calls => (Operation.through (.reported report) calls).run
  | .failed c => .done (.error (.store (.noMatch c.channelName c.version)))

def party (e : Entrant) : Party := ⟨.pass e.ops, e.rest⟩

/-- The records that a pass has still to delete, once it has read the store; none if it
has failed. -/
def todo? (channels : List Channel) (e : Entrant) : Option (List Credential) :=
  match e.stage with
  | .read records => some (Plan.of records channels).retired
  | .working _ calls => some (calls.filterMap Call.deleted?)
  | _ => none

theorem rest_fresh (ops : String) :
    rest ⟨ops, .fresh⟩ = .ask .scan fun
      | .error e => .done (.error (.store e))
      | .ok records => rest ⟨ops, .read records⟩ := by
  show Dialogue.bind (Reconcile.pass ops).run _ = _
  rw [Reconcile.run_pass]
  refine congrArg (Dialogue.ask .scan) (funext fun scanned => ?_)
  cases scanned with
  | error e => rfl
  | ok records =>
      refine congrArg (Dialogue.ask .listChannels) (funext fun listed => ?_)
      cases listed with
      | error e => rfl
      | ok channels =>
          let plan := Plan.of records channels
          exact congrArg ExceptT.run (Operation.map_through Outcome.reported plan.report
            (plan.tasks.flatMap (Reconcile.Task.calls ops)))

/-- A pass has ended when all its calls are made or when it has failed. -/
theorem stage_of_done {e : Entrant} {result : Except RelayError Outcome}
    (h : e.rest = .done result) :
    (∃ report, e.stage = .working report [] ∧ result = .ok (.reported report)) ∨
      ∃ c, e.stage = .failed c ∧
        result = .error (.store (.noMatch c.channelName c.version)) := by
  obtain ⟨ops, stage⟩ := e
  cases stage with
  | fresh =>
      rw [rest_fresh] at h
      exact absurd h (by simp)
  | read records => exact absurd h (by simp [rest, afterScan])
  | working report calls =>
      cases calls with
      | nil => exact Or.inl ⟨report, rfl, (Dialogue.done.inj h).symm⟩
      | cons call calls => exact absurd h (by simp [rest, Operation.through])
  | failed c => exact Or.inr ⟨c, rfl, (Dialogue.done.inj h).symm⟩

/-! ## What is known of a pass -/

/-- What is known of a pass when `rest` is left of the records that are to be retired. -/
structure Fits (channels : List Channel) (retired rest : List Credential)
    (history : List Turn) (client : Nat) (e : Entrant) : Prop where
  pending : ∀ todo, e.todo? channels = some todo → rest <:+ todo ∧ todo <:+ retired
  /-- What a pass has deleted itself is not deleted again. -/
  own : ∀ todo, e.todo? channels = some todo →
    ∀ c ∈ (exchangesOf client history).filterMap Exchange.deleted?, c ∉ todo
  work : ∀ report calls, e.stage = .working report calls → ∀ call ∈ calls, call.isWork
  lost : ∀ c, e.stage = .failed c → Lost client c history

section Fits

variable {channels : List Channel} {retired rest rest' : List Credential}
  {history : List Turn} {client : Nat} {e : Entrant}

theorem fits_fresh (ops : String) : Fits channels retired rest history client ⟨ops, .fresh⟩ where
  pending todo htodo := absurd htodo (by simp [todo?])
  own todo htodo := absurd htodo (by simp [todo?])
  work report calls hstage := absurd hstage (by simp)
  lost c hstage := absurd hstage (by simp)

/-- What is known of a pass stays true while others go on. -/
theorem Fits.later {t : Turn} (h : Fits channels retired rest history client e)
    (hrest : rest' <:+ rest) (hne : t.client ≠ client) :
    Fits channels retired rest' (history ++ [t]) client e where
  pending todo htodo := by
    obtain ⟨hsuffix, hretired⟩ := h.pending todo htodo
    exact ⟨hrest.trans hsuffix, hretired⟩
  own todo htodo := by
    rw [exchangesOf_append, exchangesOf_of_ne hne, List.append_nil]
    exact h.own todo htodo
  work := h.work
  lost c hstage := (h.lost c hstage).append [t]

/-- A pass that deletes nothing and does not fail has as much to do as before. -/
theorem Fits.proceed {e' : Entrant} {t : Turn} (h : Fits channels retired rest history client e)
    (hclient : t.client = client) (hquiet : t.exchange.deleted? = none)
    (htodo : e'.todo? channels = e.todo? channels)
    (hwork : ∀ report calls, e'.stage = .working report calls → ∀ call ∈ calls, call.isWork)
    (hstage : ∀ c, e'.stage ≠ .failed c) :
    Fits channels retired rest (history ++ [t]) client e' where
  pending todo h' := h.pending todo (htodo ▸ h')
  own todo h' := by
    subst hclient
    rw [exchangesOf_append, exchangesOf_self, List.filterMap_append,
      List.filterMap_cons_none hquiet, List.filterMap_nil, List.append_nil]
    exact h.own todo (htodo ▸ h')
  work := hwork
  lost c h' := absurd h' (hstage c)

end Fits

end Entrant

end ChannelRelay
