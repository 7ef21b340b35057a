import ChannelRelay.Proofs.Dialogue.Run
import ChannelRelay.Proofs.Store.Replay
import ChannelRelay.Proofs.Store.Statements

/-!
# What any store does with its records

`Ledger.Answers` describes the plain ledger exactly.  Of the other stores, which hide
records, refuse writes or fail, `Ledger.Admits` says what is common to all of them: a write
that is refused leaves the records as they are, one that is carried out is the one that was
asked for, and a query finds no record that is not stored under its name.
-/

namespace ChannelRelay

namespace Table

theorem scanFrom_rows (t : Table) (done : List Credential) (after : Key) :
    (t.scanFrom done after).2.rows = t.rows := by
  fun_induction scanFrom t done after with
  | case1 => exact page_rows
  | case2 => exact page_rows
  | case3 t done after rows hpage next hnext ih => rw [ih, page_rows]

/-- A query that is not refused gives the records of its name. -/
theorem eq_under_of_query {t : Table} {name : String} {found : List Credential}
    (h : (t.query name).1 = .ok found) : found = under name t.rows.records := by
  cases hrefused : t.refused? 1 with
  | some code =>
      rw [query_of_refused hrefused] at h
      exact absurd h (by simp)
  | none =>
      rw [query_of_sent hrefused] at h
      exact (Except.ok.inj h).symm

theorem query_rows (t : Table) (name : String) : (t.query name).2.rows = t.rows := by
  cases hrefused : t.refused? 1 with
  | some code => rw [query_of_refused hrefused, send_eq]
  | none => rw [query_of_sent hrefused, send_eq]

end Table

namespace StoreMode

/-- All modes but one show all records of a name, in some order. -/
theorem query_perm {mode : StoreMode} (hmode : mode ≠ .stale) {l : Ledger} {name : String}
    {found : List Credential} (h : mode.query l name = .ok found) :
    found.Perm (under name l.records) := by
  rw [← Ledger.query_eq_under]
  cases mode with
  | reversed =>
      obtain rfl := Except.ok.inj h
      exact List.reverse_perm _
  | stale => exact absurd rfl hmode
  | _ =>
      simp only [query] at h
      split at h
      · exact absurd h (by simp)
      · obtain rfl := Except.ok.inj h
        exact .refl _

/-- No mode shows a record that is not there. -/
theorem mem_of_query {mode : StoreMode} {l : Ledger} {name : String}
    {found : List Credential} (h : mode.query l name = .ok found) {c : Credential}
    (hc : c ∈ found) : c ∈ under name l.records := by
  by_cases hmode : mode = .stale
  · subst hmode
    obtain rfl := Except.ok.inj h
    rw [← Ledger.query_eq_under]
    exact (List.mem_filter.1 hc).1
  · exact (query_perm hmode h).mem_iff.1 hc

/-- No mode inserts anything but what it is asked to. -/
theorem save_of_save {mode : StoreMode} {l l' : Ledger} {c : Credential}
    (h : mode.save l c = .ok l') : l.save c = .ok l' := by
  cases mode with
  | conflicting => exact absurd h (by simp [save])
  | _ =>
      simp only [save] at h
      split at h
      · exact absurd h (by simp)
      · exact h

theorem delete_of_delete {mode : StoreMode} {l l' : Ledger} {c : Credential}
    (h : mode.delete l c = .ok l') : l.delete c = .ok l' := by
  cases mode with
  | gone => exact absurd h (by simp [delete])
  | _ =>
      simp only [delete] at h
      split at h
      · exact absurd h (by simp)
      · exact h

end StoreMode

namespace Store

/-- The ledger that a store holds. -/
def held : Store → Ledger
  | .ledger _ l => l
  | .table t => t.rows

theorem records_eq (st : Store) : st.records = st.held.records := by
  cases st <;> rfl

theorem held_query (st : Store) (name : String) : (st.query name).2.held = st.held := by
  cases st with
  | ledger mode l => rfl
  | table t => exact t.query_rows name

theorem held_scan (st : Store) : st.scan.2.held = st.held := by
  cases st with
  | ledger mode l => rfl
  | table t => exact Table.scanFrom_rows t [] _

/-- A query finds none but records of its name. -/
theorem mem_of_query {st : Store} {name : String} {found : List Credential}
    (h : (st.query name).1 = .ok found) {c : Credential} (hc : c ∈ found) :
    c ∈ under name st.held.records := by
  cases st with
  | ledger mode l => exact StoreMode.mem_of_query h hc
  | table t =>
      rw [Table.eq_under_of_query h] at hc
      exact hc

/-- An insert is carried out as it was asked for, or it is refused and nothing changes. -/
theorem save_cases (st : Store) (c : Credential) :
    ((st.save c).1 = .ok () ∧ st.held.save c = .ok (st.save c).2.held) ∨
      (∃ e, (st.save c).1 = .error e) ∧ (st.save c).2.held = st.held := by
  cases st with
  | ledger mode l =>
      cases h : mode.save l c with
      | ok l' =>
          have hplain := StoreMode.save_of_save h
          simp [save, held, h, hplain]
      | error e => simp [save, held, h]
  | table t =>
      cases hrefused : t.refused? 1 with
      | some code => simp [save, held, Table.save_of_refused hrefused, Table.send_eq]
      | none =>
          cases h : t.rows.save c <;>
            simp [save, held, Table.save_of_sent hrefused, Table.send_eq, h]

/-- A delete is carried out as it was asked for, or it is refused and nothing changes. -/
theorem delete_cases (st : Store) (c : Credential) :
    ((st.delete c).1 = .ok () ∧ st.held.delete c = .ok (st.delete c).2.held) ∨
      (∃ e, (st.delete c).1 = .error e) ∧ (st.delete c).2.held = st.held := by
  cases st with
  | ledger mode l =>
      cases h : mode.delete l c with
      | ok l' =>
          have hplain := StoreMode.delete_of_delete h
          simp [delete, held, h, hplain]
      | error e => simp [delete, held, h]
  | table t =>
      cases hrefused : t.refused? 1 with
      | some code => simp [delete, held, Table.delete_of_refused hrefused, Table.send_eq]
      | none =>
          cases h : t.rows.delete c <;>
            simp [delete, held, Table.delete_of_sent hrefused, Table.send_eq, h]

end Store

namespace Ledger

/-- The exchanges that a store may have with its users, with the ledger behind it before
and after. -/
inductive Admits (l : Ledger) : Exchange → Ledger → Prop where
  | quiet {e : Exchange} (hquiet : e.Quiet)
      (hfound : ∀ name found, e = ⟨.query name, .ok found⟩ →
        ∀ c ∈ found, c ∈ under name l.records) : Admits l e l
  | saves {l' : Ledger} {c : Credential} (h : l.save c = .ok l') :
      Admits l ⟨.save c, .ok ()⟩ l'
  | deletes {l' : Ledger} {c : Credential} (h : l.delete c = .ok l') :
      Admits l ⟨.delete c, .ok ()⟩ l'

/-- What a plain ledger answers is what a store may answer. -/
theorem Answers.admits {l l' : Ledger} {e : Exchange} (h : l.Answers e.call e.answer l') :
    l.Admits e l' := by
  rcases h.cases with ⟨hquiet, rfl⟩ | ⟨c, hsaved, hsave⟩ | ⟨c, hdeleted, hdelete⟩
  · refine .quiet hquiet fun name found hquery c hc => ?_
    subst hquery
    rw [← query_eq_under, ← Except.ok.inj h.1]
    exact hc
  · obtain rfl := Exchange.saved?_eq_some_iff.1 hsaved
    exact .saves hsave
  · obtain rfl := Exchange.deleted?_eq_some_iff.1 hdeleted
    exact .deletes hdelete

/-- The ledger after exchanges that a store has had. -/
abbrev Record (l : Ledger) (es : List Exchange) (l' : Ledger) : Prop :=
  Linked Admits l es l'

theorem Replay.record {l l' : Ledger} {es : List Exchange} (h : l.Replay es l') :
    l.Record es l' := by
  induction h with
  | nil l => exact .nil l
  | cons hfirst _ ih => exact .cons hfirst.admits ih

theorem Admits.eq_of_quiet {l l' : Ledger} {e : Exchange} (h : l.Admits e l')
    (hquiet : e.Quiet) : l' = l := by
  cases h with
  | quiet => rfl
  | saves => exact absurd hquiet.1 (by simp [Exchange.saved?])
  | deletes => exact absurd hquiet.2 (by simp [Exchange.deleted?])

/-- A record that is stored after an exchange was stored before, or the exchange added it. -/
theorem Admits.mem_cases {l l' : Ledger} {e : Exchange} {c : Credential} (h : l.Admits e l')
    (hc : c ∈ l'.records) : c ∈ l.records ∨ e.saved? = some c := by
  cases h with
  | quiet => exact Or.inl hc
  | saves hsave =>
      rcases (mem_save hsave).1 hc with rfl | hc
      · exact Or.inr rfl
      · exact Or.inl hc
  | deletes hdelete => exact Or.inl ((mem_delete hdelete).1 hc).1

theorem Record.mem_cases {l l' : Ledger} {es : List Exchange} {c : Credential}
    (h : l.Record es l') (hc : c ∈ l'.records) :
    c ∈ l.records ∨ ∃ e ∈ es, e.saved? = some c := by
  induction h with
  | nil l => exact Or.inl hc
  | cons hfirst _ ih =>
      rcases ih hc with hc | ⟨e, he, hsaved⟩
      · rcases hfirst.mem_cases hc with hc | hsaved
        · exact Or.inl hc
        · exact Or.inr ⟨_, List.mem_cons_self, hsaved⟩
      · exact Or.inr ⟨e, List.mem_cons_of_mem _ he, hsaved⟩

theorem Record.eq_of_quiet {l l' : Ledger} {es : List Exchange} (h : l.Record es l')
    (hquiet : ∀ e ∈ es, e.Quiet) : l' = l := by
  induction h with
  | nil l => rfl
  | cons hfirst _ ih =>
      rw [ih fun e he => hquiet e (List.mem_cons_of_mem _ he)]
      exact hfirst.eq_of_quiet (hquiet _ List.mem_cons_self)

/-- Until its last exchange a record that is quiet so far is still at its first ledger. -/
theorem Record.split_last {l l' : Ledger} {es : List Exchange} {e : Exchange}
    (h : l.Record (es ++ [e]) l') (hquiet : ∀ e ∈ es, e.Quiet) :
    l.Record es l ∧ l.Admits e l' := by
  obtain ⟨m, hbefore, hlast⟩ := Linked.append_iff.1 h
  obtain rfl := Record.eq_of_quiet hbefore hquiet
  refine ⟨hbefore, ?_⟩
  cases hlast with
  | cons hlast hnil =>
      cases hnil
      exact hlast

end Ledger

/-- Whatever the store, every call is answered as a store may answer it. -/
theorem Surroundings.admits (s : Surroundings) (call : Call) :
    s.store.held.Admits ⟨call, (answer call s).1⟩ (answer call s).2.store.held := by
  cases call with
  | query name =>
      rw [show (answer (.query name) s).2.store.held = s.store.held from
        s.store.held_query name]
      refine .quiet ⟨rfl, rfl⟩ fun name' found heq c hc => ?_
      obtain ⟨hcall, hfound⟩ := Exchange.mk.inj heq
      obtain rfl := Call.query.inj hcall
      exact Store.mem_of_query (eq_of_heq hfound) hc
  | save c =>
      rcases s.store.save_cases c with ⟨hok, hsave⟩ | ⟨⟨e, herror⟩, hsame⟩
      · rw [show (answer (.save c) s).1 = .ok () from hok]
        exact .saves hsave
      · rw [show (answer (.save c) s).1 = .error e from herror,
          show (answer (.save c) s).2.store.held = s.store.held from hsame]
        exact .quiet ⟨rfl, rfl⟩ (by simp)
  | delete c =>
      rcases s.store.delete_cases c with ⟨hok, hdelete⟩ | ⟨⟨e, herror⟩, hsame⟩
      · rw [show (answer (.delete c) s).1 = .ok () from hok]
        exact .deletes hdelete
      · rw [show (answer (.delete c) s).1 = .error e from herror,
          show (answer (.delete c) s).2.store.held = s.store.held from hsame]
        exact .quiet ⟨rfl, rfl⟩ (by simp)
  | scan =>
      rw [show (answer .scan s).2.store.held = s.store.held from s.store.held_scan]
      exact .quiet ⟨rfl, rfl⟩ (by simp)
  | draw => exact .quiet ⟨rfl, rfl⟩ (by simp)
  | listChannels => exact .quiet ⟨rfl, rfl⟩ (by simp)
  | post channel channelName payload => exact .quiet ⟨rfl, rfl⟩ (by simp)
  | conversation id => exact .quiet ⟨rfl, rfl⟩ (by simp)
  | count family value => exact .quiet ⟨rfl, rfl⟩ (by simp)
  | counters => exact .quiet ⟨rfl, rfl⟩ (by simp)

/-- Every call is answered as a store may answer it. -/
def Surroundings.Admissible (answer : (c : Call) → Surroundings → c.Answer × Surroundings) :
    Prop :=
  ∀ (call : Call) (s : Surroundings),
    s.store.held.Admits ⟨call, (answer call s).1⟩ (answer call s).2.store.held

theorem Surroundings.admissible_answer : Admissible answer :=
  fun call s => s.admits call

/-- A run leaves the store as its transcript tells. -/
theorem Dialogue.record_transcript {α : Type}
    {answer : (c : Call) → Surroundings → c.Answer × Surroundings}
    (hanswer : Surroundings.Admissible answer) (d : Dialogue α) (s : Surroundings) :
    s.store.held.Record (d.transcript answer s) (d.run answer s).2.store.held := by
  induction d generalizing s with
  | done a => exact .nil _
  | ask call next ih => exact .cons (hanswer call s) (ih _ _)

end ChannelRelay
