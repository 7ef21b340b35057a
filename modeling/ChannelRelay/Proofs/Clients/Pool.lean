import ChannelRelay.Proofs.Dialogue.Errand
import ChannelRelay.Proofs.Store.Replay

/-!
# Clients at work on one store

A pool is a plain ledger in memory with any number of clients in front of it.  A
move lets a new client join with an errand, or lets one client make its next call;
each call is answered at once, and between two calls of a client all others may go
on.  A client that does several errands one after the other is as many clients
that join one after the other.

The tokens come from one script, in the order in which they are drawn.  The chat
service may be in any state whenever a client makes a call.

`Pool.Sound` is the invariant of all runs: the turns are a replay on the ledger,
and each client follows the rule of its errand, however the turns of the others
fell between its own.
-/

namespace ChannelRelay

/-- A client: its errand, and what is left to be done of it. -/
structure Party where
  errand : Errand
  rest : Dialogue (Except RelayError Outcome)

/-- A call that a client made, with the stored records before and after it. -/
structure Turn where
  client : Nat
  exchange : Exchange
  before : List Credential
  after : List Credential

/-- What happens next in a pool. -/
inductive Move where
  | join (errand : Errand)
  /-- The next call of a client, with the chat service in some state. -/
  | turn (client : Nat) (chat : Chat)

structure Pool where
  surroundings : Surroundings
  parties : List Party
  /-- All turns so far, in their order. -/
  history : List Turn

namespace Pool

/-- An empty store and no clients. -/
def start (tokens : List (Option String)) : Pool :=
  ⟨.ofStore (.ledger .plain .empty) tokens, [], []⟩

/-- The stored records. -/
def records (p : Pool) : List Credential := p.surroundings.store.records

/-- The answer to a call with the chat service in some state. -/
def answer (p : Pool) (call : Call) (chat : Chat) : call.Answer × Surroundings :=
  Surroundings.answer call { p.surroundings with chat := chat }

/-- The turn of a client that is at a call; its turn of a client that is done or has
not joined changes nothing. -/
def turn (p : Pool) (client : Nat) (chat : Chat) : Pool :=
  match p.parties[client]? with
  | some ⟨errand, .ask call next⟩ =>
    { surroundings := (p.answer call chat).2
      parties := p.parties.set client ⟨errand, next (p.answer call chat).1⟩
      history := p.history ++
        [⟨client, ⟨call, (p.answer call chat).1⟩, p.records,
          (p.answer call chat).2.store.records⟩] }
  | _ => p

def step (p : Pool) : Move → Pool
  | .join errand => { p with parties := p.parties ++ [⟨errand, errand.operation.run⟩] }
  | .turn client chat => p.turn client chat

def run (p : Pool) (moves : List Move) : Pool :=
  moves.foldl step p

theorem run_cons (p : Pool) (m : Move) (moves : List Move) :
    p.run (m :: moves) = (p.step m).run moves :=
  rfl

theorem run_append (p : Pool) (moves more : List Move) :
    p.run (moves ++ more) = (p.run moves).run more :=
  List.foldl_append ..

/-- A move makes one turn at most. -/
theorem history_step (p : Pool) (m : Move) :
    (p.step m).history = p.history ∨ ∃ t, (p.step m).history = p.history ++ [t] := by
  cases m with
  | join errand => exact Or.inl rfl
  | turn client chat =>
      show (p.turn client chat).history = p.history ∨
        ∃ t, (p.turn client chat).history = p.history ++ [t]
      unfold turn
      split
      · exact Or.inr ⟨_, rfl⟩
      · exact Or.inl rfl

/-- No turn is ever forgotten. -/
theorem history_prefix_run (p : Pool) (moves : List Move) :
    p.history <+: (p.run moves).history := by
  induction moves generalizing p with
  | nil => exact List.prefix_rfl
  | cons m moves ih =>
      refine List.IsPrefix.trans ?_ (ih (p.step m))
      rcases p.history_step m with hsame | ⟨t, hmore⟩
      · exact ⟨[], (List.append_nil _).trans hsame.symm⟩
      · rw [hmore]
        exact List.prefix_append _ _

/-- Every beginning of a history is the history of a beginning of the run. -/
theorem exists_run_of_history {p : Pool} {moves : List Move} {earlier later : List Turn}
    (h : (p.run moves).history = p.history ++ (earlier ++ later)) :
    ∃ before, before <+: moves ∧ (p.run before).history = p.history ++ earlier := by
  induction moves generalizing p earlier with
  | nil =>
      have hnil : earlier ++ later = [] := List.self_eq_append_right.1 h
      refine ⟨[], List.prefix_rfl, ?_⟩
      rw [(List.append_eq_nil_iff.1 hnil).1, List.append_nil]
      rfl
  | cons m moves ih =>
      cases earlier with
      | nil => exact ⟨[], List.nil_prefix, (List.append_nil _).symm⟩
      | cons t earlier =>
          rw [run_cons] at h
          rcases p.history_step m with hsame | ⟨t', hmore⟩
          · rw [← hsame] at h
            obtain ⟨before, hbefore, hhistory⟩ := ih h
            refine ⟨m :: before, List.cons_prefix_cons.2 ⟨rfl, hbefore⟩, ?_⟩
            rw [run_cons, hhistory, hsame]
          · have hfirst := (p.step m).history_prefix_run moves
            rw [h, hmore, List.cons_append] at hfirst
            obtain rfl : t' = t := by simpa using hfirst
            rw [List.cons_append, List.append_cons, ← hmore] at h
            obtain ⟨before, hbefore, hhistory⟩ := ih h
            refine ⟨m :: before, List.cons_prefix_cons.2 ⟨rfl, hbefore⟩, ?_⟩
            rw [run_cons, hhistory, hmore, ← List.append_cons]

end Pool

/-- The exchanges of one client. -/
def exchangesOf (client : Nat) (history : List Turn) : List Exchange :=
  (history.filter (·.client == client)).map Turn.exchange

/-! ## Histories -/

section History

variable {client : Nat} {history earlier later : List Turn} {t : Turn}

theorem exchangesOf_append (client : Nat) (earlier later : List Turn) :
    exchangesOf client (earlier ++ later) =
      exchangesOf client earlier ++ exchangesOf client later := by
  rw [exchangesOf, List.filter_append, List.map_append]
  rfl

theorem exchangesOf_self (t : Turn) : exchangesOf t.client [t] = [t.exchange] := by
  simp [exchangesOf]

theorem exchangesOf_of_ne (hne : t.client ≠ client) : exchangesOf client [t] = [] := by
  simp [exchangesOf, hne]

theorem exchangesOf_eq_nil (h : ∀ t ∈ history, t.client ≠ client) :
    exchangesOf client history = [] := by
  rw [exchangesOf, List.map_eq_nil_iff, List.filter_eq_nil_iff]
  intro t ht
  simpa using h t ht

theorem mem_exchangesOf {e : Exchange} :
    e ∈ exchangesOf client history ↔ ∃ t ∈ history, t.client = client ∧ t.exchange = e := by
  simp [exchangesOf, and_assoc]

/-- A place among the exchanges of a client is a place in the history. -/
theorem exists_turn_of_exchangesOf {before after : List Exchange} {e : Exchange}
    (h : exchangesOf client history = before ++ e :: after) :
    ∃ earlier t later, history = earlier ++ t :: later ∧ t.client = client ∧
      t.exchange = e ∧ exchangesOf client earlier = before ∧
      exchangesOf client later = after := by
  obtain ⟨own, rest, hfilter, hown, hrest⟩ := List.map_eq_append_iff.1 h
  obtain ⟨t, tail, rfl, rfl, htail⟩ := List.map_eq_cons_iff.1 hrest
  obtain ⟨earlier, more, rfl, hearlier, hmore⟩ := List.filter_eq_append_iff.1 hfilter
  obtain ⟨skipped, later, rfl, hskipped, hclient, hlater⟩ := List.filter_eq_cons_iff.1 hmore
  have hnone : exchangesOf client skipped = [] :=
    exchangesOf_eq_nil (by simpa using hskipped)
  refine ⟨earlier ++ skipped, t, later, by simp, by simpa using hclient, rfl, ?_, ?_⟩
  · rw [exchangesOf_append, hnone, List.append_nil, exchangesOf, hearlier, hown]
  · rw [exchangesOf, hlater, htail]

end History

namespace Ledger

/-- The ledger after turns that it answered; each turn tells the records before and
after it. -/
abbrev Recorded (l : Ledger) (turns : List Turn) (l' : Ledger) : Prop :=
  Linked (fun l t l' => t.before = l.records ∧
    l.Answers t.exchange.call t.exchange.answer l' ∧ t.after = l'.records) l turns l'

/-- What a turn in the middle of a history tells is what the ledger did. -/
theorem Recorded.split {l l' : Ledger} {earlier later : List Turn} {t : Turn}
    (h : Recorded l (earlier ++ t :: later) l') :
    ∃ m m', Recorded l earlier m ∧ t.before = m.records ∧
      m.Answers t.exchange.call t.exchange.answer m' ∧ t.after = m'.records ∧
      Recorded m' later l' := by
  obtain ⟨m, m', hearlier, ⟨hbefore, hanswer, hafter⟩, hlater⟩ := Linked.split h
  exact ⟨m, m', hearlier, hbefore, hanswer, hafter, hlater⟩

theorem Recorded.replay {l l' : Ledger} {turns : List Turn} (h : Recorded l turns l') :
    Replay l (turns.map Turn.exchange) l' := by
  induction h with
  | nil l => exact Linked.nil l
  | cons hfirst _ ih => exact Linked.cons hfirst.2.1 ih

end Ledger

namespace Pool

/-! ## What all runs keep -/

/-- The invariant of a pool. -/
structure Sound (p : Pool) : Prop where
  ledger : ∃ l, p.surroundings.store = .ledger .plain l ∧ Ledger.Recorded .empty p.history l
  /-- What is left of an errand follows its rule. -/
  follows : ∀ (i : Nat) (party : Party), p.parties[i]? = some party →
    party.rest.Follows party.errand.May party.errand.Ends (exchangesOf i p.history)
  /-- What was done of an errand followed its rule. -/
  followed : ∀ earlier t later, p.history = earlier ++ t :: later →
    ∃ party, p.parties[t.client]? = some party ∧
      party.errand.May (exchangesOf t.client earlier) t.exchange.call

theorem sound_start (tokens : List (Option String)) : (start tokens).Sound where
  ledger := ⟨.empty, rfl, .nil Ledger.empty⟩
  follows i party h := absurd h (by simp [start])
  followed earlier t later h := absurd h (by simp [start])

theorem sound_join {p : Pool} (hsound : p.Sound) (errand : Errand) :
    (p.step (.join errand)).Sound where
  ledger := hsound.ledger
  follows i party hparty := by
    change (p.parties ++ [⟨errand, errand.operation.run⟩])[i]? = some party at hparty
    change party.rest.Follows party.errand.May party.errand.Ends (exchangesOf i p.history)
    rcases Nat.lt_or_ge i p.parties.length with hold | hnew
    · rw [List.getElem?_append_left hold] at hparty
      exact hsound.follows i party hparty
    · -- A client that has just joined has made no calls.
      have hnone : exchangesOf i p.history = [] := by
        refine exchangesOf_eq_nil fun t ht hclient => ?_
        obtain ⟨earlier, later, hsplit⟩ := List.append_of_mem ht
        obtain ⟨other, hother, -⟩ := hsound.followed earlier t later hsplit
        rw [hclient, List.getElem?_eq_none hnew] at hother
        exact absurd hother (by simp)
      rw [List.getElem?_append_right hnew, List.getElem?_singleton] at hparty
      split at hparty
      · obtain rfl := Option.some.inj hparty
        rw [hnone]
        exact errand.follows
      · exact absurd hparty (by simp)
  followed earlier t later hsplit := by
    obtain ⟨party, hparty, hmay⟩ := hsound.followed earlier t later hsplit
    refine ⟨party, ?_, hmay⟩
    obtain ⟨hold, -⟩ := List.getElem?_eq_some_iff.1 hparty
    exact (List.getElem?_append_left hold).trans hparty

/-- A turn is a call that the client may make, answered by the ledger. -/
theorem sound_turn {p : Pool} (hsound : p.Sound) (client : Nat) (chat : Chat) :
    (p.turn client chat).Sound := by
  unfold turn
  split
  case h_2 => exact hsound
  case h_1 errand call next hparty =>
  obtain ⟨l, hstore, hrecorded⟩ := hsound.ledger
  have hclient : client < p.parties.length := (List.getElem?_eq_some_iff.1 hparty).1
  obtain ⟨hmay, hnext⟩ := hsound.follows client _ hparty
  obtain ⟨l', hstore', hanswer⟩ := Surroundings.answers_ledger
    (s := { p.surroundings with chat := chat }) hstore call
  constructor
  · refine ⟨l', hstore', hrecorded.concat ⟨?_, hanswer, ?_⟩⟩
    · exact congrArg Store.records hstore
    · exact congrArg Store.records hstore'
  · intro i party hi
    change (p.parties.set client ⟨errand, next (p.answer call chat).1⟩)[i]? = some party at hi
    change party.rest.Follows party.errand.May party.errand.Ends
      (exchangesOf i (p.history ++ [_]))
    rw [exchangesOf_append]
    by_cases hsame : client = i
    · subst hsame
      rw [List.getElem?_set_self hclient] at hi
      obtain rfl := Option.some.inj hi
      rw [exchangesOf_self ⟨client, _, _, _⟩]
      exact hnext _
    · rw [List.getElem?_set_ne hsame] at hi
      rw [exchangesOf_of_ne hsame, List.append_nil]
      exact hsound.follows i party hi
  · intro earlier t later hsplit
    change p.history ++ [_] = earlier ++ t :: later at hsplit
    have hkept : ∀ (i : Nat) (party : Party), p.parties[i]? = some party →
        ∃ party' : Party, (p.parties.set client ⟨errand, next (p.answer call chat).1⟩)[i]? =
          some party' ∧ party'.errand = party.errand := by
      intro i party hi
      by_cases hsame : client = i
      · subst hsame
        obtain rfl := Option.some.inj (hparty.symm.trans hi)
        exact ⟨_, List.getElem?_set_self hclient, rfl⟩
      · exact ⟨party, (List.getElem?_set_ne hsame).trans hi, rfl⟩
    rcases List.eq_nil_or_concat later with rfl | ⟨later, last, rfl⟩
    · obtain ⟨rfl, hlast⟩ := List.append_inj' hsplit rfl
      obtain rfl := (List.cons.inj hlast).1
      obtain ⟨party', hparty', herrand⟩ := hkept client _ hparty
      exact ⟨party', hparty', herrand ▸ hmay⟩
    · rw [List.concat_eq_append, ← List.cons_append, ← List.append_assoc] at hsplit
      obtain ⟨hhistory, -⟩ := List.append_inj' hsplit rfl
      obtain ⟨party, hi, hmayt⟩ := hsound.followed earlier t later hhistory
      obtain ⟨party', hparty', herrand⟩ := hkept t.client party hi
      exact ⟨party', hparty', herrand ▸ hmayt⟩

theorem sound_step {p : Pool} (hsound : p.Sound) (m : Move) : (p.step m).Sound := by
  cases m with
  | join errand => exact sound_join hsound errand
  | turn client chat => exact sound_turn hsound client chat

theorem sound_run {p : Pool} (hsound : p.Sound) (moves : List Move) : (p.run moves).Sound := by
  induction moves generalizing p with
  | nil => exact hsound
  | cons m moves ih =>
      rw [run_cons]
      exact ih (sound_step hsound m)

/-- The ledger around one turn of a run. -/
theorem Sound.split {p : Pool} (hsound : p.Sound) {earlier later : List Turn} {t : Turn}
    (hsplit : p.history = earlier ++ t :: later) :
    ∃ m m' l, Ledger.Recorded .empty earlier m ∧ t.before = m.records ∧
      m.Answers t.exchange.call t.exchange.answer m' ∧ t.after = m'.records ∧
      Ledger.Recorded m' later l ∧ p.records = l.records := by
  obtain ⟨l, hstore, hrecorded⟩ := hsound.ledger
  rw [hsplit] at hrecorded
  obtain ⟨m, m', hearlier, hbefore, hanswer, hafter, hlater⟩ := hrecorded.split
  exact ⟨m, m', l, hearlier, hbefore, hanswer, hafter, hlater, congrArg Store.records hstore⟩

/-- The stored records are those that the last turn left. -/
theorem Sound.records_eq_after {p : Pool} (hsound : p.Sound) {earlier : List Turn} {t : Turn}
    (hsplit : p.history = earlier ++ [t]) : p.records = t.after := by
  obtain ⟨m, m', l, -, -, -, hafter, hlater, hrecords⟩ := hsound.split hsplit
  cases hlater with
  | nil => exact hrecords.trans hafter.symm

/-- A client that has read the records of a name did so in some turn of its own, and
saw all that were stored then. -/
theorem Sound.exists_query {p : Pool} (hsound : p.Sound) {client : Nat} {name : String}
    {found : List Credential} {earlier later : List Turn}
    (hsplit : p.history = earlier ++ later)
    (hread : Errand.HasRead name found (exchangesOf client earlier)) :
    ∃ before q between, earlier = before ++ q :: between ∧ q.client = client ∧
      q.exchange = ⟨.query name, .ok found⟩ ∧ found = under name q.before ∧
      ∀ u ∈ between, u.client = client → u.exchange.call = .draw := by
  obtain ⟨draws, hexchanges, hdraws⟩ := hread
  rw [← List.nil_append (_ :: draws)] at hexchanges
  obtain ⟨before, q, between, rfl, hclient, hq, -, hbetween⟩ :=
    exists_turn_of_exchangesOf hexchanges
  refine ⟨before, q, between, rfl, hclient, hq, ?_, ?_⟩
  · rw [List.append_assoc, List.cons_append] at hsplit
    obtain ⟨m, m', l, -, hbefore, hanswer, -⟩ := hsound.split hsplit
    rw [hq] at hanswer
    rw [hbefore, ← Ledger.query_eq_under]
    exact Except.ok.inj hanswer.1
  · intro u hu hucl
    exact hdraws _ (hbetween ▸ mem_exchangesOf.2 ⟨u, hu, hucl, rfl⟩)

end Pool

end ChannelRelay
