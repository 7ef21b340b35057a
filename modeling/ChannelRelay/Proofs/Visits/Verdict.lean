import ChannelRelay.Proofs.Visits.Run

/-!
# Which tokens are accepted

A token is accepted under a name exactly if the last thing that happened to it under
the name was its issue, and it then stands for the channel that it was issued to
(`verify_iff_last_event`).  The stored records agree with the events at all times
(`Ledger.Tells`); this needs that no two records of a name share a token
(`Ledger.Distinct`), since a removal would otherwise leave the other one behind.
-/

namespace ChannelRelay

namespace Event

/-- The last event about a token of a name. -/
def last? (name token : String) (events : List Event) : Option Event :=
  (events.filter fun e => e.name = name ∧ e.token = token).getLast?

/-- The last thing that happened to a token of a name was its issue. -/
def Live (name token : String) (events : List Event) : Prop :=
  ∃ channelId, last? name token events = some (.issued channelId name token)

theorem last?_concat_self (events : List Event) (e : Event) :
    last? e.name e.token (events ++ [e]) = some e := by
  simp [last?, List.filter_append]

theorem last?_concat_of_ne {name token : String} {e : Event} (events : List Event)
    (hne : ¬ (e.name = name ∧ e.token = token)) :
    last? name token (events ++ [e]) = last? name token events := by
  unfold last?
  rw [List.filter_append, List.filter_cons_of_neg (by simpa using hne), List.filter_nil,
    List.append_nil]

end Event

namespace Ledger

/-- No two records of a name share a token. -/
def Distinct (l : Ledger) : Prop :=
  ∀ c ∈ l.records, ∀ d ∈ l.records, c.channelName = d.channelName → c.token = d.token → c = d

/-- The stored tokens are those whose last event was their issue, with the channel that
they were issued to. -/
def Tells (l : Ledger) (events : List Event) : Prop :=
  ∀ channelId name token, Event.last? name token events = some (.issued channelId name token) ↔
    ∃ c ∈ l.records, c.channelId = channelId ∧ c.channelName = name ∧ c.token = token

theorem distinct_empty : Ledger.empty.Distinct :=
  fun _ hc => absurd hc List.not_mem_nil

theorem tells_empty : Ledger.empty.Tells [] := by
  intro channelId name token
  simp [Event.last?, Ledger.empty]

section Insert

variable {l l' : Ledger} {c : Credential} {events : List Event}

theorem Distinct.save (h : l.Distinct)
    (hfresh : ∀ d ∈ under c.channelName l.records, d.token ≠ c.token)
    (hsave : l.save c = .ok l') : l'.Distinct := by
  intro d hd e he hname htoken
  rcases (mem_save hsave).1 hd with rfl | hd
  · rcases (mem_save hsave).1 he with rfl | he
    · rfl
    · exact absurd htoken.symm (hfresh e (mem_under.2 ⟨he, hname.symm⟩))
  · rcases (mem_save hsave).1 he with rfl | he
    · exact absurd htoken (hfresh d (mem_under.2 ⟨hd, hname⟩))
    · exact h d hd e he hname htoken

theorem Tells.save (h : l.Tells events)
    (hfresh : ∀ d ∈ under c.channelName l.records, d.token ≠ c.token)
    (hsave : l.save c = .ok l') :
    l'.Tells (events ++ [.issued c.channelId c.channelName c.token]) := by
  intro channelId name token
  by_cases habout : c.channelName = name ∧ c.token = token
  · obtain ⟨rfl, rfl⟩ := habout
    have hissued := Event.last?_concat_self events (.issued c.channelId c.channelName c.token)
    constructor
    · intro hlast
      obtain ⟨hid, -, -⟩ := Event.issued.inj (Option.some.inj (hissued.symm.trans hlast))
      exact ⟨c, (mem_save hsave).2 (Or.inl rfl), hid, rfl, rfl⟩
    · rintro ⟨d, hd, rfl, hname, htoken⟩
      rcases (mem_save hsave).1 hd with rfl | hold
      · exact hissued
      · exact absurd htoken (hfresh d (mem_under.2 ⟨hold, hname⟩))
  · rw [Event.last?_concat_of_ne (e := .issued c.channelId c.channelName c.token) events habout,
      h channelId name token]
    constructor
    · rintro ⟨d, hd, hrest⟩
      exact ⟨d, (mem_save hsave).2 (Or.inr hd), hrest⟩
    · rintro ⟨d, hd, hid, hname, htoken⟩
      rcases (mem_save hsave).1 hd with rfl | hold
      · exact absurd ⟨hname, htoken⟩ habout
      · exact ⟨d, hold, hid, hname, htoken⟩

end Insert

section Delete

variable {l l' : Ledger} {c : Credential} {events : List Event}

theorem Distinct.delete (h : l.Distinct) (hdelete : l.delete c = .ok l') : l'.Distinct := by
  intro d hd e he
  have hsub := (sublist_delete hdelete).subset
  exact h d (hsub hd) e (hsub he)

theorem Tells.delete (h : l.Tells events) (hdistinct : l.Distinct)
    (hdelete : l.delete c = .ok l') :
    l'.Tells (events ++ [.removed c.channelName c.token]) := by
  obtain ⟨stored, hstored, hkey, hstoredToken⟩ := (delete_eq_ok_iff.1 hdelete).1
  have hstoredName : stored.channelName = c.channelName := congrArg Key.name hkey
  intro channelId name token
  by_cases habout : c.channelName = name ∧ c.token = token
  · obtain ⟨rfl, rfl⟩ := habout
    have hremoved := Event.last?_concat_self events (.removed c.channelName c.token)
    constructor
    · intro hlast
      exact absurd (Option.some.inj (hremoved.symm.trans hlast)) (by simp)
    · -- A record with the token would be the deleted one.
      rintro ⟨d, hd, -, hname, htoken⟩
      obtain ⟨hold, hne⟩ := (mem_delete hdelete).1 hd
      obtain rfl := hdistinct d hold stored hstored (hname.trans hstoredName.symm)
        (htoken.trans hstoredToken.symm)
      exact absurd hkey hne
  · rw [Event.last?_concat_of_ne (e := .removed c.channelName c.token) events habout,
      h channelId name token]
    constructor
    · rintro ⟨d, hd, hid, hname, htoken⟩
      refine ⟨d, (mem_delete hdelete).2 ⟨hd, fun hdkey => habout ?_⟩, hid, hname, htoken⟩
      obtain rfl := eq_of_key_eq hd hstored (hdkey.trans hkey.symm)
      exact ⟨hstoredName.symm.trans hname, hstoredToken.symm.trans htoken⟩
    · rintro ⟨d, hd, hrest⟩
      exact ⟨d, ((mem_delete hdelete).1 hd).1, hrest⟩

theorem Removals.tells {removed : List Event} (h : Removals l removed l')
    (hdistinct : l.Distinct) (htells : l.Tells events) :
    l'.Distinct ∧ l'.Tells (events ++ removed) := by
  induction h generalizing events with
  | nil l =>
      rw [List.append_nil]
      exact ⟨hdistinct, htells⟩
  | cons hdelete _ ih =>
      rw [List.append_cons]
      exact ih (hdistinct.delete hdelete) (htells.delete hdistinct hdelete)

end Delete

/-- A visit adds its events, and the ledger agrees with them afterwards. -/
theorem Serves.tells {l l' : Ledger} {events told : List Event} (h : l.Serves told l')
    (hdistinct : l.Distinct) (htells : l.Tells events) :
    l'.Distinct ∧ l'.Tells (events ++ told) := by
  cases h with
  | issues hone hversion hfresh hsave =>
      exact ⟨hdistinct.save hfresh hsave, htells.save hfresh hsave⟩
  | removes hremovals => exact hremovals.tells hdistinct htells

end Ledger

namespace Surroundings

theorem tells_visited {s : Surroundings} {l : Ledger} {events : List Event}
    (hstore : s.store = .ledger .plain l) (hdistinct : l.Distinct) (htells : l.Tells events)
    (visits : List Visit) :
    ∃ l', (s.visited visits).store = .ledger .plain l' ∧ l'.Distinct ∧
      l'.Tells (events ++ s.events visits) := by
  induction visits generalizing s l events with
  | nil =>
      refine ⟨l, hstore, hdistinct, ?_⟩
      rw [Surroundings.events, List.append_nil]
      exact htells
  | cons v visits ih =>
      obtain ⟨m, hm, hserves⟩ := v.serves hstore
      obtain ⟨hdistinct', htells'⟩ := hserves.tells hdistinct htells
      rw [Surroundings.events, ← List.append_assoc]
      exact ih hm hdistinct' htells'

/-! ## Checks -/

/-- What comes after a query goes on from the records of the name. -/
theorem perform_query_bind {α : Type} {s : Surroundings} {l : Ledger}
    (hstore : s.store = .ledger .plain l) (name : String)
    (f : List Credential → Operation α) :
    s.perform (Operation.query name >>= f) =
      (answer (.query name) s).2.perform (f (under name l.records)) := by
  obtain ⟨l', -, hanswer, -⟩ := answers_ledger hstore (.query name)
  rw [Ledger.query_eq_under] at hanswer
  show Dialogue.run answer (((Dialogue.call (.query name)).bind _).bind _) s = _
  simp only [Dialogue.call, Dialogue.bind, Dialogue.run, hanswer]
  rfl

/-- A check of a token looks for it among the records of the name. -/
theorem perform_verify {s : Surroundings} {l : Ledger} (hstore : s.store = .ledger .plain l)
    (name token : String) :
    under name l.records = [] ∧ (s.perform (Rotation.verify name token)).1 = .ok .notFound ∨
      (∃ c ∈ under name l.records, c.token = token ∧
        (s.perform (Rotation.verify name token)).1 = .ok (.matched c.channelId name)) ∨
      under name l.records ≠ [] ∧ (∀ c ∈ under name l.records, c.token ≠ token) ∧
        (s.perform (Rotation.verify name token)).1 = .ok .unmatch := by
  rw [Rotation.verify, perform_query_bind hstore]
  cases hfound : under name l.records with
  | nil => exact Or.inl ⟨rfl, rfl⟩
  | cons a rest =>
      right
      cases hfind : (a :: rest).find? (·.token == token) with
      | some c =>
          left
          have hmem : c ∈ a :: rest := List.mem_of_find?_eq_some hfind
          have hname : c.channelName = name := (mem_under.1 (hfound ▸ hmem)).2
          refine ⟨c, hmem, by simpa using List.find?_some hfind, ?_⟩
          rw [← hname]
          rfl
      | none =>
          right
          exact ⟨List.cons_ne_nil a rest, by simpa using hfind, rfl⟩

end Surroundings

/-- The live tokens of a name are those of its records. -/
theorem Ledger.Tells.live_iff {l : Ledger} {events : List Event} (h : l.Tells events)
    (name token : String) :
    Event.Live name token events ↔ ∃ c ∈ under name l.records, c.token = token := by
  constructor
  · rintro ⟨channelId, hlast⟩
    obtain ⟨c, hc, -, hname, htoken⟩ := (h channelId name token).1 hlast
    exact ⟨c, mem_under.2 ⟨hc, hname⟩, htoken⟩
  · rintro ⟨c, hc, htoken⟩
    obtain ⟨hmem, hname⟩ := mem_under.1 hc
    exact ⟨c.channelId, (h c.channelId name token).2 ⟨c, hmem, rfl, hname, htoken⟩⟩

namespace Surroundings

/-- After any visits, with any script of tokens and in whatever state the chat service
was each time: a check of a token under a name finds it, with a channel, exactly if the
last event about the token under the name was its issue to that channel.  Otherwise
the check tells whether any other token of the name is live. -/
theorem verify_iff_last_event (tokens : List (Option String)) (visits : List Visit)
    (name token : String) :
    let s := (fresh tokens).visited visits
    let events := (fresh tokens).events visits
    ∃ verdict, (s.perform (Rotation.verify name token)).1 = .ok verdict ∧
      (∀ channelId name', verdict = .matched channelId name' ↔
        name' = name ∧ Event.last? name token events = some (.issued channelId name token)) ∧
      (verdict = .notFound ↔ ∀ token', ¬ Event.Live name token' events) ∧
      (verdict = .unmatch ↔ ¬ Event.Live name token events ∧
        ∃ token', token' ≠ token ∧ Event.Live name token' events) := by
  intro s events
  obtain ⟨l, hstore, hdistinct, htells⟩ :=
    tells_visited (s := fresh tokens) rfl Ledger.distinct_empty Ledger.tells_empty visits
  rw [List.nil_append] at htells
  have hnot : ∀ channelId, ¬ Event.Live name token events →
      Event.last? name token events ≠ some (.issued channelId name token) :=
    fun channelId hdead hlast => hdead ⟨channelId, hlast⟩
  rcases perform_verify hstore name token with
    ⟨hnone, hverdict⟩ | ⟨c, hc, htoken, hverdict⟩ | ⟨hsome, hother, hverdict⟩
  · have hdead : ∀ token', ¬ Event.Live name token' events := by
      intro token' hlive
      obtain ⟨c, hc, -⟩ := (htells.live_iff name token').1 hlive
      rw [hnone] at hc
      exact absurd hc List.not_mem_nil
    refine ⟨_, hverdict, ?_, ?_, ?_⟩
    · intro channelId name'
      simp [hnot channelId (hdead token)]
    · simp [hdead]
    · simp [hdead]
  · have hlive := (htells.live_iff name token).2 ⟨c, hc, htoken⟩
    obtain ⟨hmem, hname⟩ := mem_under.1 hc
    refine ⟨_, hverdict, ?_, ?_, ?_⟩
    · intro channelId name'
      rw [htells channelId name token]
      constructor
      · intro heq
        obtain ⟨rfl, rfl⟩ := Rotation.Verdict.matched.inj heq
        exact ⟨rfl, c, hmem, rfl, hname, htoken⟩
      · rintro ⟨rfl, d, hd, rfl, hdname, hdtoken⟩
        rw [hdistinct c hmem d hd (hname.trans hdname.symm) (htoken.trans hdtoken.symm)]
    · constructor
      · intro heq
        exact absurd heq (by simp)
      · intro hdead
        exact absurd hlive (hdead token)
    · constructor
      · intro heq
        exact absurd heq (by simp)
      · rintro ⟨hdead, -⟩
        exact absurd hlive hdead
  · have hdead : ¬ Event.Live name token events := by
      rw [htells.live_iff name token]
      rintro ⟨c, hc, htoken⟩
      exact hother c hc htoken
    obtain ⟨d, hd⟩ := List.exists_mem_of_ne_nil _ hsome
    have hlive := (htells.live_iff name d.token).2 ⟨d, hd, rfl⟩
    refine ⟨_, hverdict, ?_, ?_, ?_⟩
    · intro channelId name'
      simp [hnot channelId hdead]
    · constructor
      · intro heq
        exact absurd heq (by simp)
      · intro hnone
        exact absurd hlive (hnone d.token)
    · constructor
      · intro _
        exact ⟨hdead, d.token, hother d hd, hlive⟩
      · intro _
        rfl

end Surroundings

end ChannelRelay
