import ChannelRelay.Proofs.Dialogue.Errand
import ChannelRelay.Proofs.Store.Effects

/-!
# What an errand does to any store

An operation on tokens changes the stored records by the one write that it reports, or not at
all, and this is so for every store, also for one that hides records, refuses writes or fails
(`Errand.effect`).  What it inserts stands for the channel of its client under the name that it
was given; what it deletes was stored under that name.
-/

namespace ChannelRelay

namespace Ledger

/-- What was read first was stored at first. -/
theorem Record.mem_of_found {l l' : Ledger} {es : List Exchange} {name : String}
    {found : List Credential} (h : l.Record es l') (hread : Errand.HasRead name found es)
    {c : Credential} (hc : c ∈ found) : c ∈ under name l.records := by
  obtain ⟨draws, rfl, -⟩ := hread
  cases h with
  | cons hfirst _ =>
      cases hfirst with
      | quiet _ hfound => exact hfound name found rfl c hc

end Ledger

namespace Errand

/-- What an errand does to a ledger after the exchanges `past`, by the event that it reports: the
write that it may make then, or nothing. -/
inductive Writes (r : Errand) (past : List Exchange) (l : Ledger) :
    Option Event → Ledger → Prop where
  | none : Writes r past l none l
  | saves {l' : Ledger} {c : Credential} (hadds : r.Adds past c) (h : l.save c = .ok l') :
      Writes r past l (some (.issued c.channelId c.channelName c.token)) l'
  | deletes {l' : Ledger} {c : Credential} (hremoves : r.Removes past c) (hc : c ∈ l.records)
      (h : l.delete c = .ok l') :
      Writes r past l (some (.removed c.channelName c.token)) l'

/-- Every operation on tokens makes the write that it reports, however its calls are answered. -/
theorem writes {r : Errand} (hname : r.name? ≠ none)
    {answer : (c : Call) → Surroundings → c.Answer × Surroundings}
    (hanswer : Surroundings.Admissible answer) (s : Surroundings) :
    ∃ past, past <+: r.operation.run.transcript answer s ∧
      r.Writes past s.store.held (r.event? (r.operation.run.run answer s).1)
        (r.operation.run.run answer s).2.store.held := by
  have hrecord := r.operation.run.record_transcript hanswer s
  have hends := r.follows.ends_transcript answer s
  have hmay : ∀ before e after,
      r.operation.run.transcript answer s = before ++ e :: after → r.May before e.call :=
    fun before e after hsplit => r.follows.may_call answer hsplit
  rw [List.nil_append] at hends
  generalize r.operation.run.transcript answer s = es at hrecord hends hmay ⊢
  generalize (r.operation.run.run answer s).1 = result at hends ⊢
  generalize (r.operation.run.run answer s).2.store.held = l' at hrecord ⊢
  cases hevent : r.event? result with
  | none =>
      have hquiet := hends hname
      rw [hevent] at hquiet
      rw [hrecord.eq_of_quiet hquiet]
      exact ⟨[], List.nil_prefix, .none⟩
  | some event =>
      have hexplains := explains_of_ends hends hevent
      cases event with
      | issued channelId name token =>
          obtain ⟨before, c, rfl, hquiet, rfl, rfl, rfl⟩ := hexplains
          obtain ⟨-, hwrite⟩ := Ledger.Record.split_last hrecord hquiet
          refine ⟨before, List.prefix_append .., ?_⟩
          cases hwrite with
          | quiet hsame => exact absurd hsame.1 (by simp [Exchange.saved?])
          | saves hsave => exact .saves (hmay before _ [] rfl) hsave
      | removed name token =>
          obtain ⟨before, c, rfl, hquiet, rfl⟩ := hexplains
          obtain ⟨hbefore, hwrite⟩ := Ledger.Record.split_last hrecord hquiet
          -- What is deleted was read before, and nothing was written since.
          have hremoves := hmay before _ [] rfl
          obtain ⟨found, hread, hc⟩ := hasRead_of_removes (name?_of_event? hevent) hremoves
          obtain ⟨hstored, rfl⟩ := mem_under.1 (Ledger.Record.mem_of_found hbefore hread hc)
          refine ⟨before, List.prefix_append .., ?_⟩
          cases hwrite with
          | quiet hsame => exact absurd hsame.2 (by simp [Exchange.deleted?])
          | deletes hdelete => exact .deletes hremoves hstored hdelete

/-- What an errand may do to the stored records, by the event that it reports. -/
inductive Effect (r : Errand) (before : List Credential) :
    Option Event → List Credential → Prop where
  | kept : Effect r before none before
  | issued {after : List Credential} {c : Credential} {channelId name token : String}
      (hid : c.channelId = channelId) (hname : c.channelName = name) (htoken : c.token = token)
      (h : after.Perm (c :: before)) :
      Effect r before (some (.issued channelId name token)) after
  | removed {after : List Credential} {c : Credential} {name token : String}
      (hname : c.channelName = name) (htoken : c.token = token)
      (hmay : ∃ past, r.Removes past c) (h : before.Perm (c :: after)) :
      Effect r before (some (.removed name token)) after

/-- Every operation on tokens has the effect that it reports, on whatever store. -/
theorem effect {r : Errand} (hname : r.name? ≠ none) (s : Surroundings) :
    r.Effect s.store.records (r.event? (s.perform r.operation).1)
      (s.perform r.operation).2.store.records := by
  obtain ⟨past, -, hwrites⟩ := writes hname Surroundings.admissible_answer s
  change r.Writes past _ (r.event? (s.perform r.operation).1)
    (s.perform r.operation).2.store.held at hwrites
  rw [Store.records_eq, Store.records_eq]
  generalize (s.perform r.operation).2.store.held = l' at hwrites ⊢
  generalize r.event? (s.perform r.operation).1 = event? at hwrites ⊢
  cases hwrites with
  | none => exact .kept
  | saves _ hsave => exact .issued rfl rfl rfl (Ledger.perm_of_save hsave)
  | deletes hremoves hc hdelete =>
      exact .removed rfl rfl ⟨past, hremoves⟩ (Ledger.perm_of_delete hc hdelete)

/-- The effect of an operation, told by its own result. -/
theorem effect_of_operation {α : Type} {r : Errand} {x : Operation α} {wrap : α → Outcome}
    (hop : r.operation = wrap <$> x) (hname : r.name? ≠ none) (s : Surroundings) :
    r.Effect s.store.records (r.event? ((s.perform x).1.map wrap))
      (s.perform x).2.store.records := by
  have h := effect hname s
  rw [hop, Surroundings.perform_map] at h
  exact h

theorem Effect.eq_of_none {r : Errand} {before after : List Credential}
    (h : r.Effect before none after) : after = before := by
  cases h
  rfl

end Errand

end ChannelRelay
