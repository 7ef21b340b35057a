import ChannelRelay.Proofs.Clients.Arbitration

/-!
# How many records a name gets

A name is meant to have at most `maxTokens` records.  Clients count the records when
they read, and the store compares nothing but keys when they write; so the cap holds
as long as an insert does what its client believes it does.

`cap_iff` says exactly when that is: no more than one record may be there at the
time of an insert, which shows in what the client had found and in what was inserted
and deleted under the name since.  Inserts alone cannot break the cap, since the
second of two clients with the same view runs into a conflict; it takes a delete in
between to free the key.  `not_capped` is a run where it happens.
-/

namespace ChannelRelay

/-- A client queried a name and inserted `c` under it later on; `found` is what the
query gave and `between` are the turns from the one to the other. -/
def SavedAfter (history : List Turn) (found : List Credential) (between : List Turn)
    (c : Credential) : Prop :=
  ∃ (earlier : List Turn) (q w : Turn) (later : List Turn),
    history = earlier ++ q :: (between ++ w :: later) ∧
    q.client = w.client ∧ q.exchange = ⟨.query c.channelName, .ok found⟩ ∧
    w.exchange = ⟨.save c, .ok ()⟩

namespace Pool

/-- At no point of a run a name has more records than it may have. -/
def Capped (tokens : List (Option String)) (moves : List Move) : Prop :=
  ∀ before, before <+: moves → ∀ name,
    (under name ((start tokens).run before).records).length ≤ Rotation.maxTokens

section Windows

variable {p : Pool} {earlier between past later : List Turn} {q w : Turn} {c : Credential}
  {found : List Credential}

/-- Before each insert its client has queried the name. -/
theorem Sound.exists_window (hsound : p.Sound) (hsplit : p.history = past ++ w :: later)
    (hsave : w.exchange = ⟨.save c, .ok ()⟩) :
    ∃ (earlier : List Turn) (q : Turn) (between : List Turn),
      past = earlier ++ q :: between ∧ q.client = w.client ∧
      q.exchange = ⟨.query c.channelName, .ok (under c.channelName q.before)⟩ := by
  obtain ⟨party, -, hmay⟩ := hsound.followed past w later hsplit
  rw [hsave] at hmay
  obtain ⟨found, hread, -⟩ := Errand.hasRead_of_adds hmay
  obtain ⟨earlier, q, between, hpast, hclient, hq, rfl, -⟩ := hsound.exists_query hsplit hread
  exact ⟨earlier, q, between, hpast, hclient, hq⟩

/-- What the ledger went through from a query to a later turn. -/
theorem Sound.replay_window (hsound : p.Sound) {name : String}
    (hsplit : p.history = earlier ++ q :: (between ++ w :: later))
    (hquery : q.exchange = ⟨.query name, .ok found⟩) :
    ∃ m k, found = under name m.records ∧
      Ledger.Replay m (between.map Turn.exchange) k ∧ w.before = k.records := by
  obtain ⟨m, m', l, -, -, hanswer, -, hrest, -⟩ := hsound.split hsplit
  obtain ⟨k, k', hbetween, hend, -⟩ := hrest.split
  rw [hquery] at hanswer
  obtain ⟨hfound, rfl⟩ := hanswer
  refine ⟨m', k, ?_, hbetween.replay, hend⟩
  rw [← Ledger.query_eq_under]
  exact Except.ok.inj hfound

/-- What was found before an insert decides its version; at most one record was. -/
theorem Sound.found_of_window (hsound : p.Sound)
    (hsplit : p.history = earlier ++ q :: (between ++ w :: later))
    (hclient : q.client = w.client) (hquery : q.exchange = ⟨.query c.channelName, .ok found⟩)
    (hsave : w.exchange = ⟨.save c, .ok ()⟩) :
    found.length ≤ 1 ∧ c.version = nextVersion found := by
  -- A query is the first call of its client, so the insert follows this one.
  obtain ⟨party, -, hfirst⟩ := hsound.followed earlier q _ hsplit
  rw [hquery] at hfirst
  have hnone : exchangesOf w.client earlier = [] := hclient ▸ hfirst.2
  rw [← List.cons_append, ← List.append_assoc] at hsplit
  obtain ⟨party', -, hmay⟩ := hsound.followed _ w later hsplit
  rw [hsave] at hmay
  obtain ⟨found', ⟨draws, hread, -⟩, hlength, hversion, -⟩ := Errand.hasRead_of_adds hmay
  rw [exchangesOf_append, hnone, List.nil_append, ← List.singleton_append, exchangesOf_append,
    ← hclient, exchangesOf_self, hquery] at hread
  obtain rfl : found = found' := by simpa using (List.cons.inj hread).1
  exact ⟨hlength, hversion⟩

/-- The records at the end of a window: those that were found, with what was inserted
and without what was deleted since. -/
theorem Sound.length_under_window (hsound : p.Sound) {name : String}
    (hsplit : p.history = earlier ++ q :: (between ++ w :: later))
    (hquery : q.exchange = ⟨.query name, .ok found⟩) :
    (under name w.before).length + (deletedUnder name (between.map Turn.exchange)).length =
      found.length + (savedUnder name (between.map Turn.exchange)).length := by
  obtain ⟨m, k, hfound, hreplay, hend⟩ := hsound.replay_window hsplit hquery
  rw [hend, hreplay.length_under, hfound]

/-- Turns without inserts and deletes under a name leave its records as they were. -/
theorem Sound.under_window (hsound : p.Sound) {name : String}
    (hsplit : p.history = earlier ++ q :: (between ++ w :: later))
    (hquery : q.exchange = ⟨.query name, .ok found⟩)
    (hsaved : savedUnder name (between.map Turn.exchange) = [])
    (hdeleted : deletedUnder name (between.map Turn.exchange) = []) :
    under name w.before = found := by
  obtain ⟨m, k, hfound, hreplay, hend⟩ := hsound.replay_window hsplit hquery
  rw [hend, hreplay.under_eq_of_untouched hsaved hdeleted, hfound]

end Windows

/-! ## The exact condition -/

section Counting

variable {p : Pool}

/-- An insert is what makes the records of a name more. -/
theorem length_under_turn {m m' : Ledger} {t : Turn} (name : String)
    (hanswer : m.Answers t.exchange.call t.exchange.answer m') :
    (under name m'.records).length ≤ (under name m.records).length ∨
      (under name m'.records).length = (under name m.records).length + 1 ∧
        ∃ c, t.exchange = ⟨.save c, .ok ()⟩ ∧ c.channelName = name := by
  have hcount := Ledger.Replay.length_under_step hanswer name
  by_cases hsaved : savedUnder name [t.exchange] = []
  · left
    rw [hsaved, List.length_nil] at hcount
    omega
  · right
    obtain ⟨c, hsave, hname⟩ := exists_save_of_savedUnder hsaved
    rw [hsave, savedUnder_save hname] at hcount
    exact ⟨hcount, c, hsave, hname⟩

/-- If one record is there at most whenever one is inserted, the cap holds. -/
theorem Sound.length_le_of_windows (hsound : p.Sound)
    (hwindows : ∀ found between c, SavedAfter p.history found between c →
      found.length + (savedUnder c.channelName (between.map Turn.exchange)).length ≤
        1 + (deletedUnder c.channelName (between.map Turn.exchange)).length)
    {turns later : List Turn} {m : Ledger} (hsplit : p.history = turns ++ later)
    (hturns : Ledger.Recorded .empty turns m) (name : String) :
    (under name m.records).length ≤ Rotation.maxTokens := by
  -- The induction is on the turns so far; only an insert under the name matters.
  induction turns using List.reverseRecOn generalizing later m with
  | nil =>
      cases hturns
      exact Nat.zero_le _
  | append_singleton turns w ih =>
      rw [List.append_assoc, List.singleton_append] at hsplit
      obtain ⟨k, k', hrecorded, hbefore, hanswer, -, hnil⟩ := hturns.split
      cases hnil
      rcases length_under_turn name hanswer with hless | ⟨hmore, c, hsave, rfl⟩
      · exact Nat.le_trans hless (ih hsplit hrecorded)
      · obtain ⟨earlier, q, between, rfl, hclient, hquery⟩ := hsound.exists_window hsplit hsave
        rw [List.append_assoc, List.cons_append] at hsplit
        have hbalance := hsound.length_under_window hsplit hquery
        have hwindow := hwindows _ between c
          ⟨earlier, q, w, later, hsplit, hclient, hquery, hsave⟩
        rw [hbefore] at hbalance
        have htwo : Rotation.maxTokens = 2 := rfl
        omega

/-- Where the cap holds after an insert, one record was there at most before it. -/
theorem Sound.window_of_length_le (hsound : p.Sound) {found : List Credential}
    {earlier between later : List Turn} {q w : Turn} {c : Credential}
    (hsplit : p.history = earlier ++ q :: (between ++ w :: later))
    (hquery : q.exchange = ⟨.query c.channelName, .ok found⟩)
    (hsave : w.exchange = ⟨.save c, .ok ()⟩)
    (hle : (under c.channelName w.after).length ≤ Rotation.maxTokens) :
    found.length + (savedUnder c.channelName (between.map Turn.exchange)).length ≤
      1 + (deletedUnder c.channelName (between.map Turn.exchange)).length := by
  have hbalance := hsound.length_under_window hsplit hquery
  rw [← List.cons_append, ← List.append_assoc] at hsplit
  obtain ⟨m, m', l, -, hbefore, hanswer, hafter, -⟩ := hsound.split hsplit
  have hsaved := hanswer.save_of_saved (Exchange.saved?_eq_some_iff.2 hsave)
  have hcount := Ledger.length_under_save hsaved c.channelName
  rw [under_cons, if_pos rfl, ← hbefore, ← hafter] at hcount
  have htwo : Rotation.maxTokens = 2 := rfl
  simp only [under_nil, List.length_singleton] at hcount
  omega

end Counting

/-! ## Windows without deletes -/

section Undisturbed

variable {p : Pool}

/-- The first insert under a name. -/
theorem exists_first_save {name : String} {turns : List Turn}
    (h : savedUnder name (turns.map Turn.exchange) ≠ []) :
    ∃ (before : List Turn) (w : Turn) (after : List Turn) (c : Credential),
      turns = before ++ w :: after ∧
      savedUnder name (before.map Turn.exchange) = [] ∧
      w.exchange = ⟨.save c, .ok ()⟩ ∧ c.channelName = name := by
  induction turns with
  | nil => exact absurd rfl h
  | cons t turns ih =>
      by_cases hfirst : savedUnder name [t.exchange] = []
      · have hrest : savedUnder name (turns.map Turn.exchange) ≠ [] := by
          intro hnil
          refine h ?_
          rw [List.map_cons, ← List.singleton_append, savedUnder_append, hfirst, hnil]
          rfl
        obtain ⟨before, w, after, c, rfl, hbefore, hsave, hname⟩ := ih hrest
        refine ⟨t :: before, w, after, c, rfl, ?_, hsave, hname⟩
        rw [List.map_cons, ← List.singleton_append, savedUnder_append, hfirst, hbefore]
        rfl
      · obtain ⟨c, hsave, hname⟩ := exists_save_of_savedUnder hfirst
        exact ⟨[], t, turns, c, rfl, rfl, hsave, hname⟩

/-- Without deletes in the windows there are no inserts in them either: the first one
would have come from the same view, and taken the key of the last. -/
theorem Sound.savedUnder_window (hsound : p.Sound)
    (hkept : ∀ found between c, SavedAfter p.history found between c →
      deletedUnder c.channelName (between.map Turn.exchange) = [])
    (n : Nat) {found : List Credential} {earlier between later : List Turn} {q w : Turn}
    {c : Credential} (hn : earlier.length + between.length = n)
    (hsplit : p.history = earlier ++ q :: (between ++ w :: later))
    (hclient : q.client = w.client) (hquery : q.exchange = ⟨.query c.channelName, .ok found⟩)
    (hsave : w.exchange = ⟨.save c, .ok ()⟩) :
    savedUnder c.channelName (between.map Turn.exchange) = [] := by
  -- The induction is on the place of the insert at the end of the window.
  induction n using Nat.strongRecOn generalizing found earlier between later q w c with
  | ind n ih =>
  apply Classical.byContradiction
  intro hsome
  obtain ⟨start, w', rest, c', rfl, hstart, hsave', hname⟩ := exists_first_save hsome
  have hdeleted := hkept found _ c ⟨earlier, q, w, later, hsplit, hclient, hquery, hsave⟩
  rw [List.map_append, List.map_cons, deletedUnder_append, List.append_eq_nil_iff,
    ← List.singleton_append, deletedUnder_append, List.append_eq_nil_iff] at hdeleted
  obtain ⟨hdelStart, -, hdelRest⟩ := hdeleted
  obtain ⟨-, hversion⟩ := hsound.found_of_window hsplit hclient hquery hsave
  have hsplit₁ : p.history = earlier ++ q :: (start ++ w' :: (rest ++ w :: later)) := by
    rw [hsplit, List.append_assoc, List.cons_append]
  have hfound := hsound.under_window hsplit₁ hquery hstart hdelStart
  -- The window of the other insert ends earlier, so nothing was inserted in it.
  have hsplit₂ : p.history = (earlier ++ q :: start) ++ w' :: (rest ++ w :: later) := by
    rw [hsplit₁, List.append_assoc, List.cons_append]
  obtain ⟨earlier', q', between', hpast, hclient', hquery'⟩ :=
    hsound.exists_window hsplit₂ hsave'
  have hsplit₃ : p.history = earlier' ++ q' :: (between' ++ w' :: (rest ++ w :: later)) := by
    rw [hsplit₂, hpast, List.append_assoc, List.cons_append]
  have hlt : earlier'.length + between'.length < n := by
    have hlength := congrArg List.length hpast
    simp only [List.length_append, List.length_cons] at hlength hn
    omega
  have hsaved' := ih _ hlt rfl hsplit₃ hclient' hquery' hsave'
  have hdeleted' := hkept _ between' c'
    ⟨earlier', q', w', _, hsplit₃, hclient', hquery', hsave'⟩
  have hfound' := hsound.under_window hsplit₃ hquery' hsaved' hdeleted'
  obtain ⟨-, hversion'⟩ := hsound.found_of_window hsplit₃ hclient' hquery' hsave'
  have hkey : c'.key = c.key := by
    have hsame : c'.version = c.version := by
      rw [hversion', hversion, ← hfound', ← hfound, hname]
    exact congrArg₂ Key.mk hname hsame
  obtain ⟨v, hv, d, hdelete, hdkey, -⟩ := hsound.deleted_between hsplit₂ hsave' hsave hkey
  have hd : d ∈ deletedUnder c.channelName (rest.map Turn.exchange) := by
    refine mem_under.2 ⟨?_, (congrArg Key.name hdkey).trans hname⟩
    refine List.mem_filterMap.2 ⟨v.exchange, List.mem_map_of_mem hv, ?_⟩
    exact Exchange.deleted?_eq_some_iff.2 hdelete
  rw [hdelRest] at hd
  exact absurd hd List.not_mem_nil

end Undisturbed

/-- The cap holds throughout a run exactly if every insert comes at a time when one
record of its name is there at most, counted from what its client had found and what
was inserted and deleted since.  In particular it holds if no record of the name is
deleted between the query of a client and its insert. -/
theorem cap_iff (tokens : List (Option String)) (moves : List Move) :
    (Capped tokens moves ↔
      ∀ found between c, SavedAfter ((start tokens).run moves).history found between c →
        found.length + (savedUnder c.channelName (between.map Turn.exchange)).length ≤
          1 + (deletedUnder c.channelName (between.map Turn.exchange)).length) ∧
    ((∀ found between c, SavedAfter ((start tokens).run moves).history found between c →
        deletedUnder c.channelName (between.map Turn.exchange) = []) →
      Capped tokens moves) := by
  have hsound := sound_run (sound_start tokens) moves
  have hiff : Capped tokens moves ↔
      ∀ found between c, SavedAfter ((start tokens).run moves).history found between c →
        found.length + (savedUnder c.channelName (between.map Turn.exchange)).length ≤
          1 + (deletedUnder c.channelName (between.map Turn.exchange)).length := by
    constructor
    · rintro hcapped found between c ⟨earlier, q, w, later, hsplit, -, hquery, hsave⟩
      have hhistory : ((start tokens).run moves).history =
          (start tokens).history ++ ((earlier ++ q :: between ++ [w]) ++ later) := by
        rw [hsplit]
        simp [start]
      obtain ⟨before, hbefore, hturns⟩ := exists_run_of_history hhistory
      have hrecords := (sound_run (sound_start tokens) before).records_eq_after hturns
      refine hsound.window_of_length_le hsplit hquery hsave ?_
      rw [← hrecords]
      exact hcapped before hbefore c.channelName
    · rintro hwindows before ⟨rest, rfl⟩ name
      obtain ⟨l, hstore, hrecorded⟩ := (sound_run (sound_start tokens) before).ledger
      obtain ⟨later, hlater⟩ := ((start tokens).run before).history_prefix_run rest
      rw [← run_append] at hlater
      rw [show ((start tokens).run before).records = l.records from
        congrArg Store.records hstore]
      exact hsound.length_le_of_windows hwindows hlater.symm hrecorded name
  refine ⟨hiff, fun hkept => hiff.2 ?_⟩
  rintro found between c ⟨earlier, q, w, later, hsplit, hclient, hquery, hsave⟩
  have hsaved := hsound.savedUnder_window hkept _ rfl hsplit hclient hquery hsave
  have hlength := (hsound.found_of_window hsplit hclient hquery hsave).1
  rw [hsaved, List.length_nil]
  omega

/-! ## A run that breaks the cap -/

/-- The first client finds no record, and then waits.  Meanwhile a token is issued, a
second one added, the first one revoked and a third one added, which leaves the
versions 1 and 2; the insert of the first client at version 0 meets no conflict. -/
def slowIssue : List Move :=
  let chat : Chat := .directory ⟨[], none, []⟩
  [.join (.issue .epoch "C1" "ci"), .turn 0 chat,
    .join (.issue .epoch "C1" "ci"), .turn 1 chat, .turn 1 chat, .turn 1 chat,
    .join (.add .epoch "C1" "ci"), .turn 2 chat, .turn 2 chat, .turn 2 chat,
    .join (.revoke "ci" "a"), .turn 3 chat, .turn 3 chat,
    .join (.add .epoch "C1" "ci"), .turn 4 chat, .turn 4 chat, .turn 4 chat,
    .turn 0 chat, .turn 0 chat]

/-- An errand of an operation that issues or revokes a token. -/
def Rotates : Errand → Prop
  | .issue .. | .add .. | .revoke .. | .revokeRenamed .. => True
  | _ => False

theorem length_slowIssue :
    (under "ci" ((start [some "a", some "b", some "c", some "d"]).run slowIssue).records).length
      = 3 := by
  cbv

theorem not_capped :
    ¬ ∀ tokens moves, (∀ errand, .join errand ∈ moves → Rotates errand) →
      Capped tokens moves := by
  intro h
  have hmoves : ∀ errand, Move.join errand ∈ slowIssue → Rotates errand := by
    simp [slowIssue, Rotates]
  have hle := h [some "a", some "b", some "c", some "d"] slowIssue hmoves slowIssue
    List.prefix_rfl "ci"
  rw [length_slowIssue] at hle
  exact absurd hle (by decide)

end Pool

end ChannelRelay
