import ChannelRelay.Proofs.Passes.Agenda
import ChannelRelay.Proofs.Store.Contents

/-!
# What a plan retires

A plan retires exactly the records of archived channels, in the order in which they
were read (`retired_of`).  The rest of a plan comes from the other records alone, so
it stays the same when some of the retired records are gone (`of_without`): that is
why a pass that broke off can be repeated.
-/

namespace ChannelRelay.Plan

variable {channels : List Channel} {c : Credential} {a : ArchivedRecord}

theorem record_of_archived? (h : archived? channels c = some a) : a.record = c := by
  unfold archived? at h
  split at h
  · split at h
    · obtain rfl := Option.some.inj h
      rfl
    · exact absurd h (by simp)
  · exact absurd h (by simp)

/-- The records that a plan retires are those whose channel is archived. -/
theorem retired_of (records : List Credential) (channels : List Channel) :
    (Plan.of records channels).retired =
      records.filter fun c => (archived? channels c).isSome := by
  show (records.filterMap (archived? channels)).map ArchivedRecord.record = _
  induction records with
  | nil => rfl
  | cons c records ih =>
      cases h : archived? channels c with
      | none => simpa [h] using ih
      | some a => simpa [h, record_of_archived? h] using ih

theorem mem_retired {records : List Credential} :
    c ∈ (Plan.of records channels).retired ↔
      c ∈ records ∧ (archived? channels c).isSome := by
  rw [retired_of, List.mem_filter]

theorem retired_sublist (records : List Credential) (channels : List Channel) :
    (Plan.of records channels).retired.Sublist records := by
  rw [retired_of]
  exact List.filter_sublist

/-- A plan retires no record twice. -/
theorem retired_nodup (l : Ledger) (channels : List Channel) :
    (Plan.of l.records channels).retired.Nodup :=
  l.nodup.sublist (retired_sublist l.records channels)

/-- Records that are retired do not count for anything else in a plan. -/
theorem of_without {l : Ledger} {gone : List Credential}
    (hgone : ∀ c ∈ gone, c ∈ (Plan.of l.records channels).retired) :
    let plan := Plan.of l.records channels
    Plan.of (l.without gone).records channels =
      ⟨plan.archived.filter (·.record ∉ gone), plan.migrations, plan.renames⟩ := by
  intro plan
  have hlive : (l.without gone).records.filter (fun c => (archived? channels c).isNone) =
      l.records.filter fun c => (archived? channels c).isNone := by
    show (l.records.filter (· ∉ gone)).filter _ = _
    rw [List.filter_filter]
    refine List.filter_congr fun c hc => ?_
    by_cases hmem : c ∈ gone
    · have hsome := (mem_retired.1 (hgone c hmem)).2
      simpa [hmem] using hsome
    · simp [hmem]
  have harchived : (l.without gone).records.filterMap (archived? channels) =
      (l.records.filterMap (archived? channels)).filter (·.record ∉ gone) := by
    show (l.records.filter (· ∉ gone)).filterMap _ = _
    rw [List.filterMap_filter, List.filter_filterMap]
    refine congrArg (List.filterMap · l.records) (funext fun c => ?_)
    cases h : archived? channels c with
    | none => simp
    | some a =>
        obtain rfl := record_of_archived? h
        by_cases hmem : a.record ∈ gone
        · simp [hmem, Option.filter]
        · simp [hmem, Option.filter]
  simp only [plan, Plan.of, hlive, harchived]

/-- What is left to be retired. -/
theorem retired_of_without {l : Ledger} {gone : List Credential} :
    (Plan.of (l.without gone).records channels).retired =
      (Plan.of l.records channels).retired.filter (· ∉ gone) := by
  rw [retired_of, retired_of]
  show (l.records.filter (· ∉ gone)).filter _ = _
  rw [List.filter_filter, List.filter_filter]
  exact List.filter_congr fun c _ => Bool.and_comm _ _

/-- When the first ones of the records are gone, the others are left. -/
theorem retired_rest {l : Ledger} {done rest : List Credential}
    (hretired : (Plan.of l.records channels).retired = done ++ rest) :
    (Plan.of (l.without done).records channels).retired = rest := by
  have hnodup := retired_nodup l channels
  rw [hretired] at hnodup
  have hdisjoint := (List.nodup_append.1 hnodup).2.2
  have hdone : done.filter (· ∉ done) = [] := by
    refine List.filter_eq_nil_iff.2 fun c hc => ?_
    simpa using hc
  have hrest : rest.filter (· ∉ done) = rest := by
    refine List.filter_eq_self.2 fun c hc => ?_
    have hnot : c ∉ done := fun hmem => hdisjoint c hmem c hc rfl
    simpa using hnot
  rw [retired_of_without, hretired, List.filter_append, hdone, hrest, List.nil_append]

/-- What is reported when the first ones of the records are gone. -/
theorem report_rest {l : Ledger} {done rest : List Credential}
    (hretired : (Plan.of l.records channels).retired = done ++ rest) :
    let plan := Plan.of l.records channels
    (Plan.of (l.without done).records channels).report =
      ⟨rest.length, plan.migrations.length, plan.renames.length⟩ := by
  intro plan
  have hgone : ∀ c ∈ done, c ∈ plan.retired := by
    intro c hc
    rw [hretired]
    exact List.mem_append_left _ hc
  have hlength : (Plan.of (l.without done).records channels).archived.length = rest.length := by
    rw [← retired_rest hretired, retired, List.length_map]
  have hothers := of_without hgone
  unfold report
  rw [hlength, hothers]

end ChannelRelay.Plan
