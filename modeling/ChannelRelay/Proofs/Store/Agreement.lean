import ChannelRelay.Proofs.Dialogue.Transcript
import ChannelRelay.Proofs.Store.Statements
import Mathlib

/-!
# The ledger and the table

Both stores give the same answers, whatever is asked of them one call after the other:
after each call the table holds the records of the ledger (`Store.Mirrors`).  The one
restriction is on the versions, which may not be negative, since a full read of the table
starts after the least key of the empty name.

A statement that is refused ends its call with an error and leaves the rows as they are
(`table_agrees`).
-/

namespace ChannelRelay

/-- Some calls, made one after the other whatever they are answered. -/
def Dialogue.making : List Call → Dialogue Unit
  | [] => .done ()
  | call :: calls => .ask call fun _ => making calls

namespace Store

/-- A plain ledger, and a table with its records that refuses nothing. -/
def Mirrors (a b : Store) : Prop :=
  ∃ t : Table, a = .ledger .plain t.rows ∧ b = .table t ∧ t.faults = [] ∧
    ∀ c ∈ t.rows.records, 0 ≤ c.version

variable {a b : Store}

theorem Mirrors.records (h : a.Mirrors b) : b.records = a.records := by
  obtain ⟨t, rfl, rfl, -⟩ := h
  rfl

theorem mirrors_query (h : a.Mirrors b) (name : String) :
    (b.query name).1 = (a.query name).1 ∧ (a.query name).2.Mirrors (b.query name).2 := by
  obtain ⟨⟨rows, _, sent⟩, rfl, rfl, rfl, hversions⟩ := h
  have htable : (table ⟨rows, [], sent⟩).query name =
      (.ok (under name rows.records), .table ⟨rows, [], .query name :: sent⟩) := by
    rw [query, Table.query_of_sent rfl]
    rfl
  rw [query_plain, Ledger.query_eq_under, htable]
  exact ⟨rfl, ⟨rows, [], .query name :: sent⟩, rfl, rfl, rfl, hversions⟩

theorem mirrors_save (h : a.Mirrors b) {c : Credential} (hc : 0 ≤ c.version) :
    (b.save c).1 = (a.save c).1 ∧ (a.save c).2.Mirrors (b.save c).2 := by
  obtain ⟨⟨rows, _, sent⟩, rfl, rfl, rfl, hversions⟩ := h
  cases hsave : rows.save c with
  | ok rows' =>
      have htable : (table ⟨rows, [], sent⟩).save c =
          (.ok (), .table ⟨rows', [], .insert c :: sent⟩) := by
        rw [save, Table.save_of_done hsave]
      rw [save_of_ok hsave, htable]
      refine ⟨rfl, _, rfl, rfl, rfl, fun d hd => ?_⟩
      rcases (Ledger.mem_save hsave).1 hd with rfl | hd
      · exact hc
      · exact hversions d hd
  | error e =>
      have htable : (table ⟨rows, [], sent⟩).save c =
          (.error e, .table ⟨rows, [], .insert c :: sent⟩) := by
        rw [save, Table.save_of_sent rfl, hsave]
        rfl
      rw [save_of_error hsave, htable]
      exact ⟨rfl, _, rfl, rfl, rfl, hversions⟩

theorem mirrors_delete (h : a.Mirrors b) (c : Credential) :
    (b.delete c).1 = (a.delete c).1 ∧ (a.delete c).2.Mirrors (b.delete c).2 := by
  obtain ⟨⟨rows, _, sent⟩, rfl, rfl, rfl, hversions⟩ := h
  let sent' := .delete c.channelName c.version c.token :: sent
  cases hdelete : rows.delete c with
  | ok rows' =>
      have htable : (table ⟨rows, [], sent⟩).delete c =
          (.ok (), .table ⟨rows', [], sent'⟩) := by
        rw [delete, Table.delete_of_done hdelete]
      rw [delete_of_ok hdelete, htable]
      exact ⟨rfl, _, rfl, rfl, rfl, fun d hd =>
        hversions d ((Ledger.mem_delete hdelete).1 hd).1⟩
  | error e =>
      have htable : (table ⟨rows, [], sent⟩).delete c =
          (.error e, .table ⟨rows, [], sent'⟩) := by
        rw [delete, Table.delete_of_sent rfl, hdelete]
        rfl
      rw [delete_of_error hdelete, htable]
      exact ⟨rfl, _, rfl, rfl, rfl, hversions⟩

theorem mirrors_scan (h : a.Mirrors b) :
    b.scan.1 = a.scan.1 ∧ a.scan.2.Mirrors b.scan.2 := by
  obtain ⟨t, rfl, rfl, hfaults, hversions⟩ := h
  have hreads := Table.reads_all hversions
  have hnone : t.refused? (t.rows.size / Table.pageSize + 1) = none := by
    simp [Table.refused?, hfaults]
  obtain ⟨hresult, hleft, -⟩ := hreads.ok hnone
  have hrows : t.scan.2.rows = t.rows := hreads.rows
  rw [Table.restAfter_scanStart hversions] at hresult
  rw [hfaults, List.drop_nil] at hleft
  exact ⟨hresult, t.scan.2, by rw [hrows]; rfl, rfl, hleft, by rw [hrows]; exact hversions⟩

end Store

namespace Surroundings

/-- Surroundings that differ in nothing but their stores, which hold the same records. -/
def Mirrors (s t : Surroundings) : Prop :=
  s.store.Mirrors t.store ∧ t = { s with store := t.store }

variable {s t : Surroundings}

/-- The table answers a call as the ledger does, and holds the same records after it. -/
theorem mirrors_answer (h : s.Mirrors t) (call : Call)
    (hcall : ∀ c, call = .save c → 0 ≤ c.version) :
    (answer call t).1 = (answer call s).1 ∧ (answer call s).2.Mirrors (answer call t).2 := by
  obtain ⟨hstore, hsame⟩ := h
  rw [hsame]
  cases call with
  | query name =>
      obtain ⟨hanswer, hnext⟩ := Store.mirrors_query hstore name
      exact ⟨hanswer, hnext, rfl⟩
  | save c =>
      obtain ⟨hanswer, hnext⟩ := Store.mirrors_save hstore (hcall c rfl)
      exact ⟨hanswer, hnext, rfl⟩
  | delete c =>
      obtain ⟨hanswer, hnext⟩ := Store.mirrors_delete hstore c
      exact ⟨hanswer, hnext, rfl⟩
  | scan =>
      obtain ⟨hanswer, hnext⟩ := Store.mirrors_scan hstore
      exact ⟨hanswer, hnext, rfl⟩
  | draw => exact ⟨rfl, hstore, rfl⟩
  | listChannels => exact ⟨rfl, hstore, rfl⟩
  | post channel channelName payload => exact ⟨rfl, hstore, rfl⟩
  | conversation id => exact ⟨rfl, hstore, rfl⟩
  | count family value => exact ⟨rfl, hstore, rfl⟩
  | counters => exact ⟨rfl, hstore, rfl⟩

open Dialogue (making)

theorem mirrors_making (h : s.Mirrors t) {calls : List Call}
    (hcalls : ∀ c, .save c ∈ calls → 0 ≤ c.version) :
    (making calls).transcript answer t = (making calls).transcript answer s ∧
      ((making calls).run answer s).2.Mirrors ((making calls).run answer t).2 := by
  induction calls generalizing s t with
  | nil => exact ⟨rfl, h⟩
  | cons call calls ih =>
      obtain ⟨hanswer, hnext⟩ := mirrors_answer h call fun c hc => hcalls c (by simp [hc])
      obtain ⟨hrest, hend⟩ := ih hnext fun c hc => hcalls c (List.mem_cons_of_mem call hc)
      refine ⟨?_, hend⟩
      show (⟨call, (answer call t).1⟩ : Exchange) :: (making calls).transcript answer _ = _
      rw [hanswer, hrest]
      rfl

/-- The table does what the ledger does.  Asked for anything, one call after the other,
both give the same answers and hold the same records.  The table reads `m` rows in
`m / 500 + 1` pages, in the order of their keys, and each of them once.  An insert whose key
is taken is refused with the code of a unique violation, which is a conflict, and a delete of
a key that is free or holds another token affects no row, which is no match.  If a statement
is refused otherwise, the call fails with that error.  After all of these the rows are as
before. -/
theorem table_agrees {calls : List Call} (hcalls : ∀ c, .save c ∈ calls → 0 ≤ c.version)
    (tokens : List (Option String)) {t : Table} (ht : ∀ c ∈ t.rows.records, 0 ≤ c.version) :
    let ledger := ofStore (.ledger .plain .empty) tokens
    let table := ofStore (.table (.ofLedger .empty)) tokens
    let pages := t.rows.size / Table.pageSize + 1
    (making calls).transcript answer table = (making calls).transcript answer ledger ∧
    ((making calls).run answer table).2.store.records =
      ((making calls).run answer ledger).2.store.records ∧
    (t.refused? 1 = none → ∀ name, (t.query name).1 = .ok (under name t.rows.records)) ∧
    (t.refused? 1 = none → ∀ c,
      ((∃ d ∈ t.rows.records, d.key = c.key) →
        (t.insert c).1 = .error uniqueViolation ∧
        (t.save c).1 = .error (.conflict c.channelName c.version) ∧
        (t.save c).2.rows = t.rows) ∧
      ((∀ d ∈ t.rows.records, d.key = c.key → d.token ≠ c.token) →
        (t.deleteRows c.channelName c.version c.token).1 = .ok 0 ∧
        (t.delete c).1 = .error (.noMatch c.channelName c.version) ∧
        (t.delete c).2.rows = t.rows)) ∧
    (t.refused? pages = none →
      t.scan.1 = .ok t.rows.records ∧ t.rows.records.Pairwise Credential.Precedes ∧
      ∃ sent, t.scan.2.sent = sent ++ t.sent ∧ sent.length = pages ∧
        ∀ s ∈ sent, ∃ start, s = .page start Table.pageSize) ∧
    (∀ code, t.refused? pages = some code → t.scan.1 = .error (Table.refusal code)) ∧
    t.scan.2.rows = t.rows ∧
    ∀ code, t.refused? 1 = some code →
      (∀ name, (t.query name).1 = .error (Table.refusal code) ∧
        (t.query name).2.rows = t.rows) ∧
      (∀ c, (t.delete c).1 = .error (Table.refusal code) ∧ (t.delete c).2.rows = t.rows) ∧
      ∀ c, (t.save c).1 = .error (if code = uniqueViolation
          then .conflict c.channelName c.version else Table.refusal code) ∧
        (t.save c).2.rows = t.rows := by
  intro ledger table pages
  have hstart : ledger.Mirrors table :=
    ⟨⟨.ofLedger .empty, rfl, rfl, rfl, fun c hc => absurd hc List.not_mem_nil⟩, rfl⟩
  obtain ⟨hanswers, hend⟩ := mirrors_making hstart hcalls
  have hreads := Table.reads_all ht
  refine ⟨hanswers, hend.1.records, ?_, ?_, ?_, ?_, hreads.rows, ?_⟩
  · intro hnone name
    rw [Table.query_of_sent hnone]
  · intro hnone c
    refine ⟨fun htaken => ?_, fun hother => ?_⟩
    · have htaken := Table.isTaken_iff.2 htaken
      rw [Table.insert_of_taken hnone htaken, Table.save_of_sent hnone,
        Table.save_of_taken htaken]
      exact ⟨rfl, rfl, rfl⟩
    · have hzero := Table.countP_isMeant_eq_zero_iff.2 hother
      rw [Table.deleteRows_of_none hnone hzero, Table.delete_of_sent hnone,
        Table.delete_of_none hzero]
      exact ⟨rfl, rfl, rfl⟩
  · intro hnone
    obtain ⟨hresult, -, hsent⟩ := hreads.ok hnone
    rw [Table.restAfter_scanStart ht] at hresult
    exact ⟨hresult, t.rows.ascending, hsent⟩
  · intro code hcode
    exact hreads.error code hcode
  · intro code hcode
    refine ⟨fun name => ?_, fun c => ?_, fun c => ?_⟩
    · rw [Table.query_of_refused hcode]
      exact ⟨rfl, rfl⟩
    · rw [Table.delete_of_refused hcode]
      exact ⟨rfl, rfl⟩
    · rw [Table.save_of_refused hcode]
      exact ⟨rfl, rfl⟩

/-- Two inserts under one key, a query, a delete with a wrong token and a full read. -/
def probes : List Call :=
  [.save ⟨"ci", 0, "C1", "a", "2024-01-01T00:00:00Z"⟩,
    .save ⟨"ci", 0, "C1", "b", "2024-01-02T00:00:00Z"⟩, .query "ci",
    .delete ⟨"ci", 0, "C1", "b", "2024-01-02T00:00:00Z"⟩, .scan]

/-- What a plain ledger answers. -/
def probed : List Exchange :=
  let c : Credential := ⟨"ci", 0, "C1", "a", "2024-01-01T00:00:00Z"⟩
  [⟨.save c, .ok ()⟩,
    ⟨.save ⟨"ci", 0, "C1", "b", "2024-01-02T00:00:00Z"⟩, .error (.conflict "ci" 0)⟩,
    ⟨.query "ci", .ok [c]⟩,
    ⟨.delete ⟨"ci", 0, "C1", "b", "2024-01-02T00:00:00Z"⟩, .error (.noMatch "ci" 0)⟩,
    ⟨.scan, .ok [c]⟩]

theorem transcript_probes :
    (making probes).transcript answer (ofStore (.ledger .plain .empty) []) = probed := by
  cbv

theorem versions_probes : ∀ c, .save c ∈ probes → 0 ≤ c.version := by
  intro c hc
  have hversion : c.version = 0 := by
    simp only [probes, List.mem_cons, List.not_mem_nil, or_false, Call.save.injEq,
      reduceCtorEq] at hc
    rcases hc with rfl | rfl <;> rfl
  rw [hversion]
  exact Int32.le_refl 0

/-- The table gives the same answers, and a read of one of its rows fails if its first page
is refused. -/
theorem probes_agree :
    let c : Credential := ⟨"ci", 0, "C1", "a", "2024-01-01T00:00:00Z"⟩
    let t : Table := ⟨⟨[c], List.pairwise_singleton _ _⟩, [some "40001"], []⟩
    (making probes).transcript answer (ofStore (.table (.ofLedger .empty)) []) = probed ∧
      t.scan.1 = .error (.database (.refused "simulated 40001")) ∧ t.scan.2.rows = t.rows := by
  intro c t
  have ht : ∀ d ∈ t.rows.records, 0 ≤ d.version := by
    intro d hd
    rw [List.mem_singleton.1 hd]
    exact Int32.le_refl 0
  obtain ⟨hanswers, -, -, -, -, hscan, hrows, -⟩ := table_agrees versions_probes [] ht
  exact ⟨hanswers.trans transcript_probes, hscan "40001" rfl, hrows⟩

end Surroundings

end ChannelRelay
