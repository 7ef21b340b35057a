import ChannelRelay.Proofs.Clients.Pool
import ChannelRelay.Proofs.Entries
import ChannelRelay.Proofs.Store.Effects
import ChannelRelay.Proofs.Time.Instant
import ChannelRelay.Proofs.Visits.Run
import Mathlib

/-!
# Times of issue

The time at which a record is issued is read from the record again, as long as the clock of the
relay shows a year of four digits (`Instant.survives_storage`).  So none of the records that the
relay wrote keeps the entries of a name from being shown, whatever the store and whoever else was
at work; a record that does was there before.
-/

namespace ChannelRelay

/-- A record that keeps the entries of a name from being shown is stored under the name. -/
theorem Surroundings.exists_of_corruptedRecord {s : Surroundings} {name other : String}
    {version : Int32} {createdAt : String}
    (h : (s.perform (Rotation.entries name)).1 =
      .error (.corruptedRecord other version createdAt)) :
    ∃ c ∈ s.store.records, c.channelName = name ∧ c.channelName = other ∧ c.version = version ∧
      c.createdAt = createdAt ∧ Instant.parse? createdAt = none := by
  rw [Rotation.entries, Errand.records_bind, perform_bind, perform_query] at h
  cases hquery : (s.store.query name).1 with
  | error e =>
      rw [hquery] at h
      exact absurd (Except.error.inj h) (by simp)
  | ok found =>
      rw [hquery] at h
      obtain ⟨c, hc, hentry⟩ := Credential.exists_of_entries h
      obtain ⟨hparse, hreport⟩ := Credential.entry_eq_error_iff.1 hentry
      obtain ⟨rfl, rfl, rfl⟩ := RelayError.corruptedRecord.inj hreport
      rw [(List.mergeSort_perm ..).mem_iff] at hc
      obtain ⟨hstored, hname⟩ := mem_under.1 (Store.mem_of_query hquery hc)
      rw [Store.records_eq]
      exact ⟨c, hstored, hname, rfl, rfl, rfl, hparse⟩

/-! ## Clocks -/

namespace Errand

variable {r : Errand} {past : List Exchange} {c : Credential}

/-- The time that an errand takes from the clock. -/
def now? : Errand → Option Instant
  | .issue now _ _ | .add now _ _ => some now
  | _ => none

/-- The clock shows a year of four digits. -/
def InYears (r : Errand) : Prop := ∀ now, r.now? = some now → now.InYears

/-- A record is inserted with the time that the clock showed. -/
theorem createdAt_of_adds (h : r.Adds past c) :
    ∃ now, r.now? = some now ∧ c.createdAt = now.nanosText := by
  cases r with
  | issue now channelId name =>
      obtain ⟨-, token, rfl⟩ := h
      exact ⟨now, rfl, rfl⟩
  | add now channelId name =>
      obtain ⟨a, token, -, -, rfl⟩ := h
      exact ⟨now, rfl, rfl⟩
  | _ => exact h.elim

end Errand

/-- A record with the time of such a clock can be read. -/
theorem Errand.parse?_of_adds {r : Errand} {past : List Exchange} {c : Credential}
    (hclock : r.InYears) (h : r.Adds past c) : Instant.parse? c.createdAt ≠ none := by
  obtain ⟨now, hnow, hcreated⟩ := createdAt_of_adds h
  rw [hcreated, Instant.parse?_nanosText, if_pos (hclock now hnow)]
  simp

/-! ## One visit after the other -/

/-- What a visit to any store adds was issued at the time of its clock. -/
theorem Visit.mem_leave {v : Visit} {s : Surroundings} {c : Credential}
    (hc : c ∈ (v.leave s).store.records) :
    c ∈ s.store.records ∨ ∃ past, v.errand.Adds past c := by
  rw [Store.records_eq] at hc ⊢
  have hrecord := v.errand.operation.run.record_transcript Surroundings.admissible_answer
    { s with chat := v.chat }
  rcases hrecord.mem_cases hc with hc | ⟨e, he, hsaved⟩
  · exact Or.inl hc
  · obtain rfl := Exchange.saved?_eq_some_iff.1 hsaved
    obtain ⟨before, after, hsplit⟩ := List.append_of_mem he
    exact Or.inr ⟨_, v.errand.follows.may_call _ hsplit⟩

/-- A record that visits leave in a store was there before, or it can be read. -/
theorem Surroundings.mem_visited {s : Surroundings} {visits : List Visit} {c : Credential}
    (hclocks : ∀ v ∈ visits, v.errand.InYears) (hc : c ∈ (s.visited visits).store.records) :
    c ∈ s.store.records ∨ Instant.parse? c.createdAt ≠ none := by
  induction visits generalizing s with
  | nil => exact Or.inl hc
  | cons v visits ih =>
      rcases ih (fun w hw => hclocks w (List.mem_cons_of_mem v hw)) hc with hc | hread
      · rcases Visit.mem_leave hc with hc | ⟨past, hadds⟩
        · exact Or.inl hc
        · exact Or.inr (Errand.parse?_of_adds (hclocks v List.mem_cons_self) hadds)
      · exact Or.inr hread

/-! ## Clients at work together -/

namespace Pool

theorem mem_parties_step {p : Pool} {m : Move} {party : Party}
    (h : party ∈ (p.step m).parties) :
    (∃ q ∈ p.parties, q.errand = party.errand) ∨ m = .join party.errand := by
  cases m with
  | join errand =>
      rcases List.mem_append.1 h with h | h
      · exact Or.inl ⟨party, h, rfl⟩
      · rw [List.mem_singleton.1 h]
        exact Or.inr rfl
  | turn client chat =>
      refine Or.inl ?_
      change party ∈ (p.turn client chat).parties at h
      unfold turn at h
      split at h
      · rename_i errand call next hclient
        rcases List.mem_or_eq_of_mem_set h with h | rfl
        · exact ⟨party, h, rfl⟩
        · exact ⟨_, List.mem_of_getElem? hclient, rfl⟩
      · exact ⟨party, h, rfl⟩

/-- A client that is at work joined at the start or on the way. -/
theorem mem_parties_run {p : Pool} {moves : List Move} {party : Party}
    (h : party ∈ (p.run moves).parties) :
    (∃ q ∈ p.parties, q.errand = party.errand) ∨ .join party.errand ∈ moves := by
  induction moves generalizing p with
  | nil => exact Or.inl ⟨party, h, rfl⟩
  | cons m moves ih =>
      rw [run_cons] at h
      rcases ih h with ⟨q, hq, herrand⟩ | hjoin
      · rcases mem_parties_step hq with ⟨q', hq', herrand'⟩ | rfl
        · exact Or.inl ⟨q', hq', herrand'.trans herrand⟩
        · rw [← herrand]
          exact Or.inr List.mem_cons_self
      · exact Or.inr (List.mem_cons_of_mem m hjoin)

/-- Every record that clients leave in a store can be read. -/
theorem parse?_of_mem_records {tokens : List (Option String)} {moves : List Move}
    {c : Credential} (hclocks : ∀ r, .join r ∈ moves → r.InYears)
    (hc : c ∈ ((start tokens).run moves).records) : Instant.parse? c.createdAt ≠ none := by
  have hsound := sound_run (sound_start tokens) moves
  obtain ⟨l, hstore, hrecorded⟩ := hsound.ledger
  rw [records, hstore] at hc
  have hrecord := Ledger.Replay.record hrecorded.replay
  rcases Ledger.Record.mem_cases hrecord hc with hc | ⟨e, he, hsaved⟩
  · exact absurd hc List.not_mem_nil
  · obtain rfl := Exchange.saved?_eq_some_iff.1 hsaved
    obtain ⟨t, ht, hexchange⟩ := List.mem_map.1 he
    obtain ⟨earlier, later, hsplit⟩ := List.append_of_mem ht
    obtain ⟨party, hparty, hmay⟩ := hsound.followed earlier t later hsplit
    rw [hexchange] at hmay
    rcases mem_parties_run (List.mem_of_getElem? hparty) with ⟨q, hq, -⟩ | hjoin
    · exact absurd hq List.not_mem_nil
    · exact Errand.parse?_of_adds (hclocks _ hjoin) hmay

end Pool

/-! ## Times that are kept -/

/-- The time at which a record is issued survives its storage, and every time that can be read
survives being written with an offset.  A record that keeps the entries of a name from being shown
was not written by the relay: in any store it was there before all visits, and a store that was
empty before its clients came has none. -/
theorem Instant.survives_storage :
    (∀ i : Instant, parse? i.nanosText = if i.InYears then some i else none) ∧
      (∀ text i, parse? text = some i ↔ ∃ s : Stamp, s.WrittenAs text ∧ s.instant = i) ∧
      (∀ text i, parse? text = some i → i.InYears → parse? i.offsetText = parse? text) ∧
      (∀ (s : Surroundings) (visits : List Visit) (name other : String) (version : Int32)
        (createdAt : String),
        (∀ v ∈ visits, v.errand.InYears) →
        ((s.visited visits).perform (Rotation.entries name)).1 =
          .error (.corruptedRecord other version createdAt) →
        ∃ c ∈ s.store.records, c.channelName = other ∧ c.version = version ∧
          c.createdAt = createdAt ∧ parse? createdAt = none) ∧
      ∀ (tokens : List (Option String)) (moves : List Move) (name other : String)
        (version : Int32) (createdAt : String),
        (∀ r, .join r ∈ moves → r.InYears) →
        (((Pool.start tokens).run moves).surroundings.perform (Rotation.entries name)).1 ≠
          .error (.corruptedRecord other version createdAt) := by
  refine ⟨parse?_nanosText, fun text i => parse?_eq_some_iff, ?_, ?_, ?_⟩
  · intro text i hread hyears
    rw [parse?_offsetText, if_pos hyears, hread]
  · intro s visits name other version createdAt hclocks hreport
    obtain ⟨c, hc, -, hother, hversion, rfl, hcorrupted⟩ :=
      Surroundings.exists_of_corruptedRecord hreport
    rcases Surroundings.mem_visited hclocks hc with hc | hread
    · exact ⟨c, hc, hother, hversion, rfl, hcorrupted⟩
    · exact absurd hcorrupted hread
  · intro tokens moves name other version createdAt hclocks hreport
    obtain ⟨c, hc, -, -, -, rfl, hcorrupted⟩ := Surroundings.exists_of_corruptedRecord hreport
    exact Pool.parse?_of_mem_records hclocks hc hcorrupted

/-- A leap second, which an offset puts on the day after the leap day. -/
def leapSecondText : String := "2024-03-01T01:29:60.1234567891+01:30"

/-- The same on the leap day. -/
def leapSecond : Instant := ⟨1709251199, 1123456789, by decide, by decide⟩

/-- A ledger with a record that the relay did not write, and a token to come. -/
def undated : Surroundings :=
  .ofStore (.ledger .plain (.ofRecords [⟨"ci", 7, "C1", "x", "yesterday"⟩])) [some "a"]

/-- A second token beside it. -/
def addition : Visit := ⟨.add .epoch "C1" "ci", .directory ⟨[], none, []⟩⟩

theorem survives_storage_leap_second :
    Instant.parse? leapSecondText = some leapSecond ∧ leapSecond.InYears ∧
      leapSecond.offsetText = "2024-02-29T23:59:60.123456789+00:00" ∧
      Instant.parse? leapSecond.offsetText = Instant.parse? leapSecondText ∧
      ((undated.visited [addition]).perform (Rotation.entries "ci")).1 =
        .error (.corruptedRecord "ci" 7 "yesterday") ∧
      ∃ c ∈ undated.store.records, c.channelName = "ci" ∧ c.version = 7 ∧
        c.createdAt = "yesterday" ∧ Instant.parse? "yesterday" = none := by
  obtain ⟨-, -, hoffset, hstored, -⟩ := Instant.survives_storage
  have hread : Instant.parse? leapSecondText = some leapSecond := by decide
  have hyears : leapSecond.InYears := Instant.inYears_iff.2 (by decide)
  have hreport : ((undated.visited [addition]).perform (Rotation.entries "ci")).1 =
      .error (.corruptedRecord "ci" 7 "yesterday") := by cbv
  have hclocks : ∀ v ∈ [addition], v.errand.InYears := by
    intro v hv now hnow
    obtain rfl := List.mem_singleton.1 hv
    obtain rfl := Option.some.inj hnow
    exact Instant.inYears_iff.2 (by decide)
  exact ⟨hread, hyears, by decide +kernel, hoffset _ _ hread hyears, hreport,
    hstored _ _ _ _ _ _ hclocks hreport⟩

end ChannelRelay
