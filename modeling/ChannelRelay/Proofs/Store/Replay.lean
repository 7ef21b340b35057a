import ChannelRelay.Proofs.Dialogue.Transcript
import ChannelRelay.Proofs.Store.Contents

/-!
# Replaying exchanges on a ledger

`Ledger.Answers` says how a plain ledger answers a call and what becomes of it;
calls that are not for the store may be answered anyhow.  `Ledger.Replay` links the
answers of a list of exchanges.  It is all that the proofs about runs know of the
store, whoever made the calls and in whatever order.

* `Answers.cases` says once what an exchange can do to a ledger.
* `Replay.length_under` balances the records of a name against the inserts and
  deletes in between.
* `Replay.mem_of_not_deleted` keeps a record until a delete names its key and its
  token.
-/

namespace ChannelRelay

/-- States that are linked by a list of labels, one step for each label. -/
inductive Linked {σ α : Type} (step : σ → α → σ → Prop) : σ → List α → σ → Prop where
  | nil (s : σ) : Linked step s [] s
  | cons {s m s' : σ} {a : α} {as : List α} (hfirst : step s a m)
      (hrest : Linked step m as s') : Linked step s (a :: as) s'

namespace Linked

variable {σ α : Type} {step : σ → α → σ → Prop} {s s' : σ}

theorem append_iff {as bs : List α} :
    Linked step s (as ++ bs) s' ↔ ∃ m, Linked step s as m ∧ Linked step m bs s' := by
  induction as generalizing s with
  | nil =>
      constructor
      · intro h
        exact ⟨s, nil s, h⟩
      · rintro ⟨m, hnil, h⟩
        cases hnil
        exact h
  | cons a as ih =>
      constructor
      · intro h
        cases h with
        | cons hfirst hrest =>
            obtain ⟨m, has, hbs⟩ := ih.1 hrest
            exact ⟨m, cons hfirst has, hbs⟩
      · rintro ⟨m, has, hbs⟩
        cases has with
        | cons hfirst hrest => exact cons hfirst (ih.2 ⟨m, hrest, hbs⟩)

theorem concat {m : σ} {as : List α} {a : α} (h : Linked step s as m) (hlast : step m a s') :
    Linked step s (as ++ [a]) s' :=
  append_iff.2 ⟨m, h, cons hlast (nil s')⟩

/-- The step in the middle of a list. -/
theorem split {as bs : List α} {a : α} (h : Linked step s (as ++ a :: bs) s') :
    ∃ m m', Linked step s as m ∧ step m a m' ∧ Linked step m' bs s' := by
  obtain ⟨m, has, hrest⟩ := append_iff.1 h
  cases hrest with
  | @cons _ m' _ _ _ hfirst hbs => exact ⟨m, m', has, hfirst, hbs⟩

end Linked

/-- The records of a name that were added by some exchanges. -/
def savedUnder (name : String) (es : List Exchange) : List Credential :=
  under name (es.filterMap Exchange.saved?)

/-- The records of a name that were taken out by some exchanges, as they were named. -/
def deletedUnder (name : String) (es : List Exchange) : List Credential :=
  under name (es.filterMap Exchange.deleted?)

theorem savedUnder_append (name : String) (es fs : List Exchange) :
    savedUnder name (es ++ fs) = savedUnder name es ++ savedUnder name fs := by
  rw [savedUnder, List.filterMap_append, under_append]
  rfl

theorem deletedUnder_append (name : String) (es fs : List Exchange) :
    deletedUnder name (es ++ fs) = deletedUnder name es ++ deletedUnder name fs := by
  rw [deletedUnder, List.filterMap_append, under_append]
  rfl

theorem savedUnder_save {name : String} {c : Credential} (hname : c.channelName = name) :
    savedUnder name [⟨.save c, .ok ()⟩] = [c] := by
  simp [savedUnder, Exchange.saved?, under_cons, hname]

theorem exists_save_of_savedUnder {name : String} {e : Exchange}
    (h : savedUnder name [e] ≠ []) : ∃ c, e = ⟨.save c, .ok ()⟩ ∧ c.channelName = name := by
  obtain ⟨c, hc⟩ := List.exists_mem_of_ne_nil _ h
  obtain ⟨hmem, hname⟩ := mem_under.1 hc
  obtain ⟨e', he, hsaved⟩ := List.mem_filterMap.1 hmem
  obtain rfl := List.mem_singleton.1 he
  exact ⟨c, Exchange.saved?_eq_some_iff.1 hsaved, hname⟩

namespace Ledger

/-- The answers that a plain ledger gives, with the ledger after the call. -/
def Answers (l : Ledger) : (call : Call) → call.Answer → Ledger → Prop
  | .query name, answer, l' => answer = .ok (l.query name) ∧ l' = l
  | .scan, answer, l' => answer = .ok l.scan ∧ l' = l
  | .save c, answer, l' =>
    (l.save c = .ok l' ∧ answer = .ok ()) ∨
      ∃ e, l.save c = .error e ∧ answer = .error e ∧ l' = l
  | .delete c, answer, l' =>
    (l.delete c = .ok l' ∧ answer = .ok ()) ∨
      ∃ e, l.delete c = .error e ∧ answer = .error e ∧ l' = l
  | _, _, l' => l' = l

/-- The ledger after exchanges that it answered. -/
abbrev Replay (l : Ledger) (es : List Exchange) (l' : Ledger) : Prop :=
  Linked (fun l e l' => l.Answers e.call e.answer l') l es l'

end Ledger

/-- The surroundings answer from a plain ledger as the ledger does. -/
theorem Surroundings.answers_ledger {s : Surroundings} {l : Ledger}
    (hstore : s.store = .ledger .plain l) (call : Call) :
    ∃ l', (Surroundings.answer call s).2.store = .ledger .plain l' ∧
      l.Answers call (Surroundings.answer call s).1 l' := by
  cases call with
  | query name =>
      refine ⟨l, ?_, ?_, rfl⟩
      · simp [Surroundings.answer, hstore, Store.query_plain]
      · simp [Surroundings.answer, hstore, Store.query_plain]
  | scan =>
      refine ⟨l, ?_, ?_, rfl⟩
      · simp [Surroundings.answer, hstore, Store.scan_plain]
      · simp [Surroundings.answer, hstore, Store.scan_plain]
  | save c =>
      cases h : l.save c with
      | ok l' =>
          refine ⟨l', ?_, Or.inl ⟨h, ?_⟩⟩
          · simp [Surroundings.answer, hstore, Store.save_of_ok h]
          · simp [Surroundings.answer, hstore, Store.save_of_ok h]
      | error e =>
          refine ⟨l, ?_, Or.inr ⟨e, h, ?_, rfl⟩⟩
          · simp [Surroundings.answer, hstore, Store.save_of_error h]
          · simp [Surroundings.answer, hstore, Store.save_of_error h]
  | delete c =>
      cases h : l.delete c with
      | ok l' =>
          refine ⟨l', ?_, Or.inl ⟨h, ?_⟩⟩
          · simp [Surroundings.answer, hstore, Store.delete_of_ok h]
          · simp [Surroundings.answer, hstore, Store.delete_of_ok h]
      | error e =>
          refine ⟨l, ?_, Or.inr ⟨e, h, ?_, rfl⟩⟩
          · simp [Surroundings.answer, hstore, Store.delete_of_error h]
          · simp [Surroundings.answer, hstore, Store.delete_of_error h]
  | draw => exact ⟨l, hstore, rfl⟩
  | listChannels => exact ⟨l, hstore, rfl⟩
  | post channel channelName payload => exact ⟨l, hstore, rfl⟩
  | conversation id => exact ⟨l, hstore, rfl⟩
  | count family value => exact ⟨l, hstore, rfl⟩
  | counters => exact ⟨l, hstore, rfl⟩

namespace Ledger

/-- What an exchange can do: nothing, or add one record, or take one out. -/
theorem Answers.cases {l l' : Ledger} {e : Exchange} (h : l.Answers e.call e.answer l') :
    (e.Quiet ∧ l' = l) ∨ (∃ c, e.saved? = some c ∧ l.save c = .ok l') ∨
      ∃ c, e.deleted? = some c ∧ l.delete c = .ok l' := by
  obtain ⟨call, answer⟩ := e
  cases call with
  | save c =>
      rcases h with ⟨hsave, rfl⟩ | ⟨e, -, rfl, rfl⟩
      · exact Or.inr (Or.inl ⟨c, rfl, hsave⟩)
      · exact Or.inl ⟨⟨rfl, rfl⟩, rfl⟩
  | delete c =>
      rcases h with ⟨hdelete, rfl⟩ | ⟨e, -, rfl, rfl⟩
      · exact Or.inr (Or.inr ⟨c, rfl, hdelete⟩)
      · exact Or.inl ⟨⟨rfl, rfl⟩, rfl⟩
  | query name => exact Or.inl ⟨⟨rfl, rfl⟩, h.2⟩
  | scan => exact Or.inl ⟨⟨rfl, rfl⟩, h.2⟩
  | _ => exact Or.inl ⟨⟨rfl, rfl⟩, h⟩

theorem Answers.eq_of_quiet {l l' : Ledger} {e : Exchange} (h : l.Answers e.call e.answer l')
    (hquiet : e.Quiet) : l' = l := by
  rcases h.cases with ⟨-, hsame⟩ | ⟨c, hsaved, -⟩ | ⟨c, hdeleted, -⟩
  · exact hsame
  · exact absurd (hquiet.1.symm.trans hsaved) (by simp)
  · exact absurd (hquiet.2.symm.trans hdeleted) (by simp)

/-- An exchange that added a record is an insert that was carried out. -/
theorem Answers.save_of_saved {l l' : Ledger} {e : Exchange} {c : Credential}
    (h : l.Answers e.call e.answer l') (hsaved : e.saved? = some c) : l.save c = .ok l' := by
  obtain rfl := Exchange.saved?_eq_some_iff.1 hsaved
  rcases h with ⟨hsave, -⟩ | ⟨e, -, hanswer, -⟩
  · exact hsave
  · exact absurd hanswer (by simp)

theorem Answers.delete_of_deleted {l l' : Ledger} {e : Exchange} {c : Credential}
    (h : l.Answers e.call e.answer l') (hdeleted : e.deleted? = some c) :
    l.delete c = .ok l' := by
  obtain rfl := Exchange.deleted?_eq_some_iff.1 hdeleted
  rcases h with ⟨hdelete, -⟩ | ⟨e, -, hanswer, -⟩
  · exact hdelete
  · exact absurd hanswer (by simp)

namespace Replay

theorem append_iff {l l' : Ledger} {es fs : List Exchange} :
    Replay l (es ++ fs) l' ↔ ∃ m, Replay l es m ∧ Replay m fs l' :=
  Linked.append_iff

theorem eq_of_quiet {l l' : Ledger} {es : List Exchange} (h : Replay l es l')
    (hquiet : ∀ e ∈ es, e.Quiet) : l' = l := by
  induction h with
  | nil l => rfl
  | cons hfirst _ ih =>
      have hm := hfirst.eq_of_quiet (hquiet _ List.mem_cons_self)
      rw [← hm]
      exact ih fun e he => hquiet e (List.mem_cons_of_mem _ he)

/-- One exchange moves the number of records of a name by what it adds or takes out. -/
theorem length_under_step {l l' : Ledger} {e : Exchange} (h : l.Answers e.call e.answer l')
    (name : String) :
    (under name l'.records).length + (deletedUnder name [e]).length =
      (under name l.records).length + (savedUnder name [e]).length := by
  rcases h.cases with ⟨⟨hsaved, hdeleted⟩, rfl⟩ | ⟨c, hsaved, hsave⟩ | ⟨c, hdeleted, hdelete⟩
  · simp [deletedUnder, savedUnder, hsaved, hdeleted]
  · have hcount := length_under_save hsave name
    obtain rfl := Exchange.saved?_eq_some_iff.1 hsaved
    exact hcount
  · have hcount := length_under_delete hdelete name
    obtain rfl := Exchange.deleted?_eq_some_iff.1 hdeleted
    exact hcount

theorem length_under {l l' : Ledger} {es : List Exchange} (h : Replay l es l')
    (name : String) :
    (under name l'.records).length + (deletedUnder name es).length =
      (under name l.records).length + (savedUnder name es).length := by
  induction h with
  | nil l => rfl
  | @cons l m l' e es hfirst _ ih =>
      have hstep := length_under_step hfirst name
      rw [← List.singleton_append, savedUnder_append, deletedUnder_append, List.length_append,
        List.length_append]
      omega

/-- What neither an insert nor a delete touches stays as it is. -/
theorem under_eq_of_untouched {l l' : Ledger} {es : List Exchange} {name : String}
    (h : Replay l es l') (hsaved : savedUnder name es = [])
    (hdeleted : deletedUnder name es = []) : under name l'.records = under name l.records := by
  induction h with
  | nil l => rfl
  | @cons l m l' e es hfirst _ ih =>
      rw [← List.singleton_append, savedUnder_append, List.append_eq_nil_iff] at hsaved
      rw [← List.singleton_append, deletedUnder_append, List.append_eq_nil_iff] at hdeleted
      rw [ih hsaved.2 hdeleted.2]
      rcases hfirst.cases with ⟨-, rfl⟩ | ⟨c, hc, hsave⟩ | ⟨c, hc, hdelete⟩
      · rfl
      · refine under_save_of_ne hsave fun hname => ?_
        obtain rfl := Exchange.saved?_eq_some_iff.1 hc
        exact absurd hsaved.1 (by simp [savedUnder, Exchange.saved?, under_cons, hname])
      · refine under_delete_of_ne hdelete fun hname => ?_
        obtain rfl := Exchange.deleted?_eq_some_iff.1 hc
        exact absurd hdeleted.1 (by simp [deletedUnder, Exchange.deleted?, under_cons, hname])

/-- A record stays until a delete that names its key and its token is carried out. -/
theorem mem_of_not_deleted {l l' : Ledger} {es : List Exchange} {c : Credential}
    (h : Replay l es l') (hc : c ∈ l.records)
    (hkept : ∀ e ∈ es, ∀ d, e.deleted? = some d → d.key = c.key → d.token ≠ c.token) :
    c ∈ l'.records := by
  induction h with
  | nil l => exact hc
  | @cons l m l' e es hfirst _ ih =>
      refine ih ?_ fun f hf => hkept f (List.mem_cons_of_mem e hf)
      rcases hfirst.cases with ⟨-, rfl⟩ | ⟨d, hd, hsave⟩ | ⟨d, hd, hdelete⟩
      · exact hc
      · exact (mem_save hsave).2 (Or.inr hc)
      · refine (mem_delete hdelete).2 ⟨hc, fun hkey => ?_⟩
        obtain ⟨⟨stored, hstored, hstoredKey, htoken⟩, -⟩ := delete_eq_ok_iff.1 hdelete
        obtain rfl : c = stored := eq_of_key_eq hc hstored (hkey.trans hstoredKey.symm)
        exact hkept e List.mem_cons_self d hd hkey.symm htoken.symm

end Replay

end Ledger

end ChannelRelay
