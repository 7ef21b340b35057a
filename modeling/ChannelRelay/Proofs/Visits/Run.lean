import ChannelRelay.Proofs.Dialogue.Errand
import ChannelRelay.Proofs.Store.Replay

/-!
# Errands one after the other

A visit is an errand that is done from its beginning to its end without
interruption.  `Ledger.Serves` says once what a visit can do to the stored records:
it inserts a record that was computed from the records of its name, or it takes out
records.  `Visit.serves` proves it of every visit, with the events that the visit
stands for; the theorems about runs of visits know nothing else of the errands.
-/

namespace ChannelRelay

/-- An errand with the chat service as it finds it. -/
structure Visit where
  errand : Errand
  chat : Chat

/-- The removal that an exchange was, if it deleted a record. -/
def Exchange.removal? (e : Exchange) : Option Event :=
  e.deleted?.map fun c => .removed c.channelName c.token

namespace Visit

/-- The exchanges of a visit. -/
def exchanges (v : Visit) (s : Surroundings) : List Exchange :=
  v.errand.operation.run.transcript Surroundings.answer { s with chat := v.chat }

def result (v : Visit) (s : Surroundings) : Except RelayError Outcome :=
  (Surroundings.perform v.errand.operation { s with chat := v.chat }).1

/-- The surroundings after a visit. -/
def leave (v : Visit) (s : Surroundings) : Surroundings :=
  (Surroundings.perform v.errand.operation { s with chat := v.chat }).2

/-- What a visit does to tokens: what its client is told of an operation on tokens, and
the deletes that a pass carried out, also if the pass fails in the end. -/
def events (v : Visit) (s : Surroundings) : List Event :=
  match v.errand with
  | .pass _ => (v.exchanges s).filterMap Exchange.removal?
  | errand => (errand.event? (v.result s)).toList

end Visit

namespace Surroundings

/-- An empty ledger and a script of tokens. -/
def fresh (tokens : List (Option String)) : Surroundings :=
  .ofStore (.ledger .plain .empty) tokens

/-- The surroundings after some visits. -/
def visited (s : Surroundings) (visits : List Visit) : Surroundings :=
  visits.foldl (fun s v => v.leave s) s

/-- The events of some visits. -/
def events (s : Surroundings) : List Visit → List Event
  | [] => []
  | v :: visits => v.events s ++ (v.leave s).events visits

end Surroundings

namespace Ledger

/-- Deletes that are carried out one after the other, as events. -/
inductive Removals : Ledger → List Event → Ledger → Prop where
  | nil (l : Ledger) : Removals l [] l
  | cons {l m l' : Ledger} {c : Credential} {events : List Event}
      (hdelete : l.delete c = .ok m) (hrest : Removals m events l') :
      Removals l (.removed c.channelName c.token :: events) l'

/-- What a visit can do to a ledger: one insert, or any number of deletes. -/
inductive Serves (l : Ledger) : List Event → Ledger → Prop where
  | issues {l' : Ledger} {c : Credential}
      (hone : (under c.channelName l.records).length ≤ 1)
      (hversion : c.version = nextVersion (under c.channelName l.records))
      (hfresh : ∀ d ∈ under c.channelName l.records, d.token ≠ c.token)
      (hsave : l.save c = .ok l') :
      Serves l [.issued c.channelId c.channelName c.token] l'
  | removes {l' : Ledger} {events : List Event} (h : Removals l events l') :
      Serves l events l'

/-- Exchanges without inserts are removals. -/
theorem Replay.removals {l l' : Ledger} {es : List Exchange} (h : Replay l es l')
    (hsaved : ∀ e ∈ es, e.saved? = none) :
    Removals l (es.filterMap Exchange.removal?) l' := by
  induction h with
  | nil l => exact Removals.nil l
  | @cons l m l' e es hfirst _ ih =>
      have hrest := ih fun f hf => hsaved f (List.mem_cons_of_mem e hf)
      rcases hfirst.cases with ⟨⟨-, hdeleted⟩, rfl⟩ | ⟨c, hc, -⟩ | ⟨c, hc, hdelete⟩
      · have hnone : e.removal? = none := by
          rw [Exchange.removal?, hdeleted]
          rfl
        rw [List.filterMap_cons_none hnone]
        exact hrest
      · exact absurd ((hsaved e List.mem_cons_self).symm.trans hc) (by simp)
      · have hsome : e.removal? = some (.removed c.channelName c.token) := by
          rw [Exchange.removal?, hc]
          rfl
        rw [List.filterMap_cons_some hsome]
        exact Removals.cons hdelete hrest

/-- What was read first is what the ledger held at first. -/
theorem Replay.found_eq {l l' : Ledger} {es : List Exchange} {name : String}
    {found : List Credential} (h : Replay l es l') (hread : Errand.HasRead name found es) :
    found = under name l.records := by
  obtain ⟨draws, rfl, -⟩ := hread
  cases h with
  | cons hfirst _ =>
      rw [← query_eq_under]
      exact Except.ok.inj hfirst.1

/-- An operation on tokens makes the one write that it reports, or none. -/
theorem Replay.serves {l l' : Ledger} {es : List Exchange} {r : Errand}
    {result : Except RelayError Outcome} (h : Replay l es l') (hname : r.name? ≠ none)
    (hmay : ∀ before e after, es = before ++ e :: after → r.May before e.call)
    (hends : r.Ends es result) : Serves l (r.event? result).toList l' := by
  cases hevent : r.event? result with
  | none =>
      have hquiet := hends hname
      rw [hevent] at hquiet
      rw [h.eq_of_quiet hquiet]
      exact Serves.removes (Removals.nil l)
  | some event =>
      have hexplains := Errand.explains_of_ends hends hevent
      cases event with
      | issued channelId name token =>
          obtain ⟨before, c, rfl, hquiet, rfl, rfl, rfl⟩ := hexplains
          obtain ⟨m, hbefore, hlast⟩ := append_iff.1 h
          obtain rfl := hbefore.eq_of_quiet hquiet
          obtain ⟨found, hread, hone, hversion, hfresh⟩ :=
            Errand.hasRead_of_adds (hmay before _ [] rfl)
          obtain rfl := hbefore.found_eq hread
          cases hlast with
          | cons hanswer hnil =>
              cases hnil
              exact Serves.issues hone hversion hfresh (hanswer.save_of_saved rfl)
      | removed name token =>
          obtain ⟨before, c, rfl, hquiet, rfl⟩ := hexplains
          obtain ⟨m, hbefore, hlast⟩ := append_iff.1 h
          obtain rfl := hbefore.eq_of_quiet hquiet
          obtain ⟨found, hread, hc⟩ :=
            Errand.hasRead_of_removes (Errand.name?_of_event? hevent) (hmay before _ [] rfl)
          obtain rfl := hbefore.found_eq hread
          obtain rfl : c.channelName = name := (mem_under.1 hc).2
          cases hlast with
          | cons hanswer hnil =>
              cases hnil
              exact Serves.removes
                (Removals.cons (hanswer.delete_of_deleted rfl) (Removals.nil _))

end Ledger

/-- A run on a plain ledger replays its transcript. -/
theorem Dialogue.exists_replay {α : Type} (d : Dialogue α) {s : Surroundings} {l : Ledger}
    (hstore : s.store = .ledger .plain l) :
    ∃ l', (d.run Surroundings.answer s).2.store = .ledger .plain l' ∧
      l.Replay (d.transcript Surroundings.answer s) l' := by
  induction d generalizing s l with
  | done a => exact ⟨l, hstore, .nil l⟩
  | ask call next ih =>
      obtain ⟨m, hm, hanswer⟩ := Surroundings.answers_ledger hstore call
      obtain ⟨l', hl', hrest⟩ := ih _ hm
      exact ⟨l', hl', .cons hanswer hrest⟩

/-- Every visit to a plain ledger inserts one record or takes some out, as its events
tell. -/
theorem Visit.serves (v : Visit) {s : Surroundings} {l : Ledger}
    (hstore : s.store = .ledger .plain l) :
    ∃ l', (v.leave s).store = .ledger .plain l' ∧ l.Serves (v.events s) l' := by
  obtain ⟨errand, chat⟩ := v
  obtain ⟨l', hstore', hreplay⟩ := errand.operation.run.exists_replay
    (s := { s with chat := chat }) hstore
  refine ⟨l', hstore', ?_⟩
  have hmay : ∀ before e after,
      errand.operation.run.transcript Surroundings.answer { s with chat := chat } =
        before ++ e :: after → errand.May before e.call :=
    fun before e after hsplit => errand.follows.may_call Surroundings.answer hsplit
  have hends := errand.follows.ends_transcript Surroundings.answer { s with chat := chat }
  cases errand with
  | pass ops =>
      refine Ledger.Serves.removes (hreplay.removals fun e he => ?_)
      -- A pass makes no inserts.
      cases hsaved : e.saved? with
      | none => rfl
      | some c =>
          obtain rfl := Exchange.saved?_eq_some_iff.1 hsaved
          obtain ⟨before, after, hsplit⟩ := List.append_of_mem he
          exact (hmay before _ after hsplit).elim
  | _ => exact hreplay.serves (by simp [Errand.name?]) hmay hends

end ChannelRelay
