import ChannelRelay.Proofs.Slack.Attempts
import ChannelRelay.Proofs.Slack.Listing
import Mathlib.Data.Set.Finite.Basic
import Mathlib.Logic.Relation

/-!
# Listings that do not end

A server that answers each request for a page by its cursor sends a listing from cursor to cursor.
Nothing in the client remembers the cursors it has asked for, so with finitely many of them the
listing ends exactly if no cursor on its way leads back to itself.  It then asks for each cursor
once, and otherwise it asks without end (`listing_ends_iff`).
-/

namespace ChannelRelay

open Json (Document)

namespace Client

/-- A server that answers every request for a page by its cursor. -/
abbrev Catalogue := String → ServerStep

namespace Catalogue

variable {k : Catalogue} {cursor next last : String} {passed : List String}

/-- The page at a cursor names the next one. -/
def LeadsOn (k : Catalogue) (cursor next : String) : Prop :=
  ∃ d p, (k cursor).Serves d p ∧ ¬ Reply.NoCursor d ∧ p.next = next

/-- There is no page at a cursor, or it is the last one. -/
def Stops (k : Catalogue) (cursor : String) : Prop :=
  ¬ ∃ next, k.LeadsOn cursor next

/-- The pages lead from a cursor through some, itself the first of them, to another. -/
inductive Walks (k : Catalogue) : String → List String → String → Prop where
  | stay (cursor : String) : Walks k cursor [] cursor
  | step {cursor next last : String} {passed : List String} (hnext : k.LeadsOn cursor next)
      (hrest : Walks k next passed last) : Walks k cursor (cursor :: passed) last

/-- A cursor on the way from the first page leads back to itself. -/
def Circles (k : Catalogue) : Prop :=
  ∃ cursor, Relation.ReflTransGen k.LeadsOn "" cursor ∧ Relation.TransGen k.LeadsOn cursor cursor

/-! ## The way of a listing -/

theorem LeadsOn.unique {next' : String} (h : k.LeadsOn cursor next)
    (h' : k.LeadsOn cursor next') : next = next' := by
  obtain ⟨d, p, ⟨status, bytes, hstep, -, hd, hp, -⟩, -, rfl⟩ := h
  obtain ⟨d', p', ⟨status', bytes', hstep', -, hd', hp', -⟩, -, rfl⟩ := h'
  obtain ⟨rfl, hbody⟩ := ServerStep.answer.inj (hstep.symm.trans hstep')
  obtain rfl := Body.whole.inj hbody
  obtain rfl := Option.some.inj (hd.symm.trans hd')
  obtain rfl := Option.some.inj (hp.symm.trans hp')
  rfl

/-- Every way to a last page is the same. -/
theorem Walks.unique {passed' : List String} {last' : String} (h : k.Walks cursor passed last)
    (hstops : k.Stops last) (h' : k.Walks cursor passed' last') (hstops' : k.Stops last') :
    passed = passed' := by
  induction h generalizing passed' with
  | stay =>
      cases h' with
      | stay => rfl
      | step hnext _ => exact absurd ⟨_, hnext⟩ hstops
  | step hnext hrest ih =>
      cases h' with
      | stay => exact absurd ⟨_, hnext⟩ hstops'
      | step hnext' hrest' =>
          obtain rfl := hnext.unique hnext'
          rw [ih hstops hrest']

/-- A step towards a last page makes the way there shorter. -/
theorem Walks.shorter (h : k.Walks cursor passed last) (hstops : k.Stops last)
    (hnext : k.LeadsOn cursor next) :
    ∃ passed', k.Walks next passed' last ∧ passed'.length < passed.length := by
  cases h with
  | stay => exact absurd ⟨_, hnext⟩ hstops
  | step hnext' hrest =>
      obtain rfl := hnext.unique hnext'
      exact ⟨_, hrest, Nat.lt_succ_self _⟩

theorem Walks.shorter_of_transGen (h : k.Walks cursor passed last) (hstops : k.Stops last)
    (hway : Relation.TransGen k.LeadsOn cursor next) :
    ∃ passed', k.Walks next passed' last ∧ passed'.length < passed.length := by
  induction hway with
  | single hnext => exact h.shorter hstops hnext
  | tail _ hnext ih =>
      obtain ⟨passed', hwalks, hlength⟩ := ih
      obtain ⟨passed'', hwalks', hlength'⟩ := hwalks.shorter hstops hnext
      exact ⟨passed'', hwalks', Nat.lt_trans hlength' hlength⟩

/-- From a cursor that leads to a last page no way leads back to it. -/
theorem Walks.not_back (h : k.Walks cursor passed last) (hstops : k.Stops last) :
    ¬ Relation.TransGen k.LeadsOn cursor cursor := by
  intro hback
  obtain ⟨passed', hwalks, hlength⟩ := h.shorter_of_transGen hstops hback
  rw [h.unique hstops hwalks hstops] at hlength
  exact absurd hlength (Nat.lt_irrefl _)

/-- A listing that comes to a last page does not run in a circle. -/
theorem Walks.not_circles (h : k.Walks "" passed last) (hstops : k.Stops last) :
    ¬ k.Circles := by
  rintro ⟨cursor, hreached, hback⟩
  rcases Relation.reflTransGen_iff_eq_or_transGen.1 hreached with rfl | hway
  · exact h.not_back hstops hback
  · obtain ⟨passed', hwalks, -⟩ := h.shorter_of_transGen hstops hway
    exact hwalks.not_back hstops hback

theorem Walks.reaches (h : k.Walks cursor passed last) {other : String} (hmem : other ∈ passed) :
    Relation.ReflTransGen k.LeadsOn cursor other := by
  induction h with
  | stay => exact absurd hmem List.not_mem_nil
  | step hnext hrest ih =>
      rcases List.mem_cons.1 hmem with rfl | hmem
      · exact .refl
      · exact .head hnext (ih hmem)

/-- A way that comes to a cursor twice holds a circle. -/
theorem Walks.exists_back (h : k.Walks cursor passed last) (htwice : ¬ passed.Nodup) :
    ∃ other, Relation.ReflTransGen k.LeadsOn cursor other ∧
      Relation.TransGen k.LeadsOn other other := by
  induction h with
  | stay => exact absurd List.nodup_nil htwice
  | @step cursor next last passed hnext hrest ih =>
      by_cases hmem : cursor ∈ passed
      · exact ⟨cursor, .refl, .head' hnext (hrest.reaches hmem)⟩
      · obtain ⟨other, hreached, hback⟩ :=
          ih fun hnodup => htwice (List.nodup_cons.2 ⟨hmem, hnodup⟩)
        exact ⟨other, .head hnext hreached, hback⟩

/-- On the way to a last page no cursor comes twice. -/
theorem Walks.nodup (h : k.Walks cursor passed last) (hstops : k.Stops last) :
    (passed ++ [last]).Nodup := by
  induction h with
  | stay => exact List.nodup_singleton _
  | @step cursor next last passed hnext hrest ih =>
      refine List.nodup_cons.2 ⟨fun hmem => ?_, ih hstops⟩
      rcases List.mem_append.1 hmem with hmem | hmem
      · exact (Walks.step hnext hrest).not_back hstops (.head' hnext (hrest.reaches hmem))
      · obtain rfl := List.mem_singleton.1 hmem
        exact hstops ⟨next, hnext⟩

/-- From every cursor there is a last page, or a way as long as one likes. -/
theorem exists_walks (k : Catalogue) (cursor : String) (n : Nat) :
    (∃ passed last, k.Walks cursor passed last ∧ k.Stops last) ∨
      ∃ passed last, k.Walks cursor passed last ∧ passed.length = n := by
  induction n generalizing cursor with
  | zero => exact Or.inr ⟨[], cursor, .stay cursor, rfl⟩
  | succ n ih =>
      by_cases hnext : ∃ next, k.LeadsOn cursor next
      · obtain ⟨next, hnext⟩ := hnext
        rcases ih next with ⟨passed, last, hwalks, hstops⟩ | ⟨passed, last, hwalks, hlength⟩
        · exact Or.inl ⟨_, last, .step hnext hwalks, hstops⟩
        · exact Or.inr ⟨_, last, .step hnext hwalks, by rw [List.length_cons, hlength]⟩
      · exact Or.inl ⟨[], cursor, .stay cursor, hnext⟩

theorem Walks.mem_or_eq (h : k.Walks cursor passed last) {other : String}
    (hmem : other ∈ passed) : other = cursor ∨ ∃ before, k.LeadsOn before other := by
  induction h with
  | stay => exact absurd hmem List.not_mem_nil
  | @step cursor next last passed hnext hrest ih =>
      rcases List.mem_cons.1 hmem with rfl | hmem
      · exact Or.inl rfl
      · rcases ih hmem with rfl | hbefore
        · exact Or.inr ⟨cursor, hnext⟩
        · exact Or.inr hbefore

/-- With finitely many cursors a listing that never comes to a last page runs in a circle. -/
theorem exists_last_of_not_circles (hfinite : {next | ∃ cursor, k.LeadsOn cursor next}.Finite)
    (h : ¬ k.Circles) : ∃ passed last, k.Walks "" passed last ∧ k.Stops last := by
  let cursors := insert "" hfinite.toFinset
  rcases exists_walks k "" (cursors.card + 1) with hlast | ⟨passed, last, hwalks, hlength⟩
  · exact hlast
  · by_cases hnodup : passed.Nodup
    · have hsubset : passed.toFinset ⊆ cursors := by
        intro other hmem
        rw [Finset.mem_insert, Set.Finite.mem_toFinset]
        exact hwalks.mem_or_eq (List.mem_toFinset.1 hmem)
      have hcard := Finset.card_le_card hsubset
      rw [List.toFinset_card_of_nodup hnodup, hlength] at hcard
      exact absurd hcard (Nat.not_succ_le_self _)
    · exact absurd (hwalks.exists_back hnodup) h

end Catalogue

/-! ## Requests -/

variable {c : Client} {k : Catalogue} {w : Wire} {l : Listing} {asked passed : List String}
  {last : String}

/-- The cursors of the requests that arrive where each of some cursors is asked for once: a
request that ends transiently is tried again. -/
def tries (c : Client) (k : Catalogue) (asked : List String) : List String :=
  asked.flatMap fun cursor => List.replicate (Wire.attempts c.maxRetries (k cursor)) cursor

/-- The call asks the server for some cursors, one after the other, and then ends. -/
def Ends (c : Client) (k : Catalogue) (asked : List String)
    (result : Except SlackError (List Channel)) : Prop :=
  let w := Wire.fresh .up ((c.tries k asked).map k) none
  (c.listChannels w).1 = result ∧ c.AsksInTurn (c.tries k asked) w (c.listChannels w).2

/-- The call asks the server for as many cursors and then goes on asking. -/
def Outlasts (c : Client) (k : Catalogue) (n : Nat) : Prop :=
  ∃ asked more, asked.length = n ∧ more ≠ [] ∧
    let w := Wire.fresh .up ((c.tries k asked).map k) none
    c.AsksInTurn (c.tries k asked ++ more) w (c.listChannels w).2

theorem tries_cons (c : Client) (k : Catalogue) (cursor : String) (asked : List String) :
    c.tries k (cursor :: asked) =
      List.replicate (Wire.attempts c.maxRetries (k cursor)) cursor ++ c.tries k asked :=
  List.flatMap_cons

theorem asks_question (c : Client) (cursor : String) :
    c.Asks cursor (c.question .listConversations (pageQuery cursor)) :=
  ⟨rfl, rfl, rfl, rfl⟩

theorem Asks.unique {cursor cursor' : String} {r : Outgoing} (h : c.Asks cursor r)
    (h' : c.Asks cursor' r) : cursor = cursor' :=
  Option.some.inj (h.cursor.symm.trans h'.cursor)

theorem asksInTurn_nil (c : Client) (w : Wire) : c.AsksInTurn [] w w :=
  ⟨[], rfl, .nil⟩

theorem AsksInTurn.append {cursors cursors' : List String} {w₁ w₂ : Wire}
    (hfirst : c.AsksInTurn cursors w w₁) (hrest : c.AsksInTurn cursors' w₁ w₂) :
    c.AsksInTurn (cursors ++ cursors') w w₂ := by
  obtain ⟨requests, hreceived, hasks⟩ := hfirst
  obtain ⟨requests', hreceived', hasks'⟩ := hrest
  refine ⟨requests ++ requests', ?_, List.rel_append hasks hasks'⟩
  rw [hreceived', hreceived, List.reverse_append, List.append_assoc]

/-- Attempts at the request for a cursor. -/
theorem asksInTurn_of_took {n : Nat} {cursor : String} {w' : Wire}
    (h : w.Took n (c.question .listConversations (pageQuery cursor)) w') :
    c.AsksInTurn (List.replicate n cursor) w w' := by
  have hasks : ∀ n, List.Forall₂ c.Asks (List.replicate n cursor)
      (List.replicate n (c.question .listConversations (pageQuery cursor))) := by
    intro n
    induction n with
    | zero => exact .nil
    | succ n ih => exact .cons (asks_question c cursor) ih
  exact ⟨_, by rw [h.2.2, List.reverse_replicate], hasks n⟩

/-- A request for a page that is always answered alike. -/
theorem page_of_repeats {step : ServerStep} (hsend : isSendable c.token = true)
    (hopen : w.IsOpen) (hstep : w.Repeats (Wire.attempts c.maxRetries step) step)
    (cursor : String) :
    (c.page cursor w).1 = answerOf .listConversations Reply.page? step.attempt ∧
      w.Took (Wire.attempts c.maxRetries step)
        (c.question .listConversations (pageQuery cursor)) (c.page cursor w).2 := by
  obtain ⟨houtcome, htook⟩ := Wire.send_of_repeats c.readTimeout
    (c.question .listConversations (pageQuery cursor)) hopen hstep
  have hpage : c.page cursor w =
      (answerOf .listConversations Reply.page?
          (w.send c.readTimeout (c.question .listConversations (pageQuery cursor))
            c.maxRetries).1,
        (w.send c.readTimeout (c.question .listConversations (pageQuery cursor))
          c.maxRetries).2) := by
    rw [page, send, if_pos hsend]
  rw [hpage]
  exact ⟨congrArg (answerOf .listConversations Reply.page?) houtcome, htook⟩

/-- The answers to the requests for a cursor stand at the start of the script. -/
theorem repeats_tries {cursor : String} {tail : List ServerStep}
    (hscript : w.script = (c.tries k (cursor :: asked)).map k ++ tail) :
    w.Repeats (Wire.attempts c.maxRetries (k cursor)) (k cursor) ∧
      w.script.drop (Wire.attempts c.maxRetries (k cursor)) =
        (c.tries k asked).map k ++ tail := by
  rw [tries_cons, List.map_append, List.map_replicate, List.append_assoc] at hscript
  constructor
  · intro i hi
    rw [hscript, List.drop_append_of_le_length (by simpa using hi.le), List.drop_replicate]
    obtain ⟨j, hj⟩ : ∃ j, Wire.attempts c.maxRetries (k cursor) - i = j + 1 :=
      ⟨Wire.attempts c.maxRetries (k cursor) - i - 1, by omega⟩
    rw [hj]
    rfl
  · rw [hscript, List.drop_left' (List.length_replicate ..)]

/-- Where no page follows, the listing ends with the answer. -/
theorem exists_ended_of_stops {cursor : String} (h : k.Stops cursor) (l : Listing) :
    ∃ result, l.take (answerOf .listConversations Reply.page? (k cursor).attempt) =
      .ended result := by
  rcases (k cursor).serves_or_fails with ⟨d, p, hserves⟩ | ⟨e, hfails⟩
  · have hlast : Reply.NoCursor d := not_not.1 fun hmore => h ⟨p.next, d, p, hserves, hmore, rfl⟩
    exact ⟨_, (take_of_serves l hserves).1 hlast⟩
  · exact ⟨_, take_of_fails l hfails⟩

/-! ## Whole listings -/

/-- Where a page follows, the listing asks for it next. -/
theorem listFrom_of_leadsOn {next : String} (hsend : isSendable c.token = true)
    (hopen : w.IsOpen) (hnext : k.LeadsOn l.cursor next)
    (hstep : w.Repeats (Wire.attempts c.maxRetries (k l.cursor)) (k l.cursor)) :
    ∃ found, c.listFrom l w = c.listFrom ⟨found, next⟩ (c.page l.cursor w).2 := by
  obtain ⟨d, p, hserves, hmore, rfl⟩ := hnext
  obtain ⟨hanswer, -⟩ := page_of_repeats hsend hopen hstep l.cursor
  refine ⟨l.found ++ p.channels, ?_⟩
  rw [listFrom_eq, hanswer, (take_of_serves l hserves).2 hmore]

theorem listFrom_of_stops (hsend : isSendable c.token = true) (hopen : w.IsOpen)
    (hstops : k.Stops l.cursor)
    (hstep : w.Repeats (Wire.attempts c.maxRetries (k l.cursor)) (k l.cursor)) :
    ∃ result, c.listFrom l w = (result, (c.page l.cursor w).2) := by
  obtain ⟨result, hended⟩ := exists_ended_of_stops hstops l
  obtain ⟨hanswer, -⟩ := page_of_repeats hsend hopen hstep l.cursor
  refine ⟨result, ?_⟩
  rw [listFrom_eq, hanswer, hended]

/-- A listing goes the way that the pages lead, and asks for each cursor on it. -/
theorem listFrom_of_walks (hsend : isSendable c.token = true) (hopen : w.IsOpen)
    {tail : List ServerStep} (h : k.Walks l.cursor passed last)
    (hscript : w.script = (c.tries k passed).map k ++ tail) :
    ∃ found w', c.listFrom l w = c.listFrom ⟨found, last⟩ w' ∧ w'.IsOpen ∧ w'.script = tail ∧
      c.AsksInTurn (c.tries k passed) w w' := by
  generalize hcursor : l.cursor = cursor at h
  -- The induction is on the way, for every listing that has come to its start.
  induction h generalizing l w with
  | stay cursor =>
      refine ⟨l.found, w, ?_, hopen, hscript, asksInTurn_nil c w⟩
      rw [← hcursor]
  | @step cursor next last passed hnext hrest ih =>
      obtain ⟨hstep, hdrop⟩ := repeats_tries hscript
      obtain ⟨-, htook⟩ := page_of_repeats hsend hopen hstep cursor
      subst hcursor
      obtain ⟨found, hlist⟩ := listFrom_of_leadsOn hsend hopen hnext hstep
      obtain ⟨found', w', hlist', hopen', hscript', hasks⟩ :=
        ih (l := ⟨found, next⟩) htook.1 (htook.2.1.trans hdrop) rfl
      refine ⟨found', w', hlist.trans hlist', hopen', hscript', ?_⟩
      rw [tries_cons]
      exact (asksInTurn_of_took htook).append hasks

/-- A listing that comes to a last page ends there. -/
theorem ends_of_walks (hsend : isSendable c.token = true) (h : k.Walks "" passed last)
    (hstops : k.Stops last) : ∃ result, c.Ends k (passed ++ [last]) result := by
  let w := Wire.fresh .up ((c.tries k (passed ++ [last])).map k) none
  have hscript : w.script = (c.tries k passed).map k ++ (c.tries k [last]).map k := by
    rw [← List.map_append]
    exact congrArg _ List.flatMap_append
  obtain ⟨found, w', hlist, hopen, htail, hasks⟩ :=
    listFrom_of_walks (l := ⟨[], ""⟩) hsend ⟨rfl, rfl⟩ h hscript
  obtain ⟨hstep, -⟩ := repeats_tries (htail.trans (List.append_nil _).symm)
  obtain ⟨-, htook⟩ := page_of_repeats hsend hopen hstep last
  obtain ⟨result, hended⟩ := listFrom_of_stops (l := ⟨found, last⟩) hsend hopen hstops hstep
  have hlisted : c.listChannels w = (result, (c.page last w').2) := hlist.trans hended
  refine ⟨result, congrArg Prod.fst hlisted, ?_⟩
  show c.AsksInTurn (c.tries k (passed ++ [last])) w (c.listChannels w).2
  rw [hlisted, tries, List.flatMap_append, List.flatMap_singleton]
  exact hasks.append (asksInTurn_of_took htook)

/-- Past its script the server refuses, and the listing ends with one more cursor asked for. -/
theorem asksInTurn_of_script_nil (hsend : isSendable c.token = true) (hopen : w.IsOpen)
    (hscript : w.script = []) (l : Listing) :
    ∃ more, more ≠ [] ∧ c.AsksInTurn more w (c.listFrom l w).2 := by
  have hstep : w.Repeats (Wire.attempts c.maxRetries .exhausted) .exhausted := by
    intro i _
    rw [hscript, List.drop_nil]
    rfl
  obtain ⟨hanswer, htook⟩ := page_of_repeats hsend hopen hstep l.cursor
  obtain ⟨e, hfails⟩ : ∃ e, ServerStep.exhausted.Fails e := ⟨_, .refused (by decide)⟩
  have hlisted : (c.listFrom l w).2 = (c.page l.cursor w).2 := by
    rw [listFrom_eq, hanswer, take_of_fails l hfails]
  refine ⟨List.replicate (Wire.attempts c.maxRetries .exhausted) l.cursor, ?_, ?_⟩
  · rw [Ne, List.replicate_eq_nil_iff]
    exact (Wire.attempts_pos ..).ne'
  · rw [hlisted]
    exact asksInTurn_of_took htook

/-- A listing that is led on and on asks more often than any number. -/
theorem outlasts_of_walks (hsend : isSendable c.token = true) (h : k.Walks "" passed last) :
    c.Outlasts k passed.length := by
  let w := Wire.fresh .up ((c.tries k passed).map k) none
  obtain ⟨found, w', hlist, hopen, htail, hasks⟩ :=
    listFrom_of_walks (l := ⟨[], ""⟩) (w := w) hsend ⟨rfl, rfl⟩ h (List.append_nil _).symm
  obtain ⟨more, hmore, hrefused⟩ := asksInTurn_of_script_nil hsend hopen htail ⟨found, last⟩
  refine ⟨passed, more, rfl, hmore, ?_⟩
  show c.AsksInTurn _ w (c.listFrom ⟨[], ""⟩ w).2
  rw [hlist]
  exact hasks.append hrefused

/-! ## The end of a listing -/

theorem exists_received_page (c : Client) (cursor : String) (w : Wire) :
    ∃ more, (c.page cursor w).2.received = more ++ w.received := by
  obtain ⟨n, hreceived⟩ :=
    c.exists_replicate_of_send (c.question .listConversations (pageQuery cursor)) w
  exact ⟨_, hreceived⟩

theorem exists_received_listFrom (c : Client) (l : Listing) (w : Wire) :
    ∃ more, (c.listFrom l w).2.received = more ++ (c.page l.cursor w).2.received := by
  induction l, w using Client.listFrom.induct c with
  | case1 l w e hfailed => exact ⟨[], by rw [listFrom_eq, hfailed]; rfl⟩
  | case2 l w p hserved result hended => exact ⟨[], by rw [listFrom_eq, hserved, hended]; rfl⟩
  | case3 l w p hserved next hnext ih =>
      obtain ⟨more, hmore⟩ := ih
      obtain ⟨first, hfirst⟩ := exists_received_page c next.cursor (c.page l.cursor w).2
      rw [listFrom_eq, hserved, hnext]
      exact ⟨more ++ first, by rw [hmore, hfirst, List.append_assoc]⟩

/-- Of the requests that arrive, those that arrive first ask for the first of the cursors. -/
theorem AsksInTurn.after {n : Nat} {cursor cursor' : String} {cursors : List String} {w₁ w₂ : Wire}
    (h : c.AsksInTurn (List.replicate n cursor ++ cursors) w w₂) (hpos : 0 < n)
    (htook : w.Took n (c.question .listConversations (pageQuery cursor')) w₁)
    (hmore : ∃ more, w₂.received = more ++ w₁.received) :
    cursor = cursor' ∧ c.AsksInTurn cursors w₁ w₂ := by
  obtain ⟨more, hmore⟩ := hmore
  obtain ⟨requests, hreceived, hasks⟩ := h
  have hrequests : requests =
      List.replicate n (c.question .listConversations (pageQuery cursor')) ++ more.reverse := by
    have hsame : requests.reverse ++ w.received =
        more ++ List.replicate n (c.question .listConversations (pageQuery cursor')) ++
          w.received := by
      rw [← hreceived, hmore, htook.2.2, List.append_assoc]
    rw [← List.reverse_reverse requests, List.append_cancel_right hsame, List.reverse_append,
      List.reverse_replicate]
  rw [hrequests] at hasks
  constructor
  · obtain ⟨m, rfl⟩ := Nat.exists_eq_succ_of_ne_zero hpos.ne'
    cases hasks with
    | cons hfirst _ => exact hfirst.unique (asks_question c cursor')
  · refine ⟨more.reverse, by rw [List.reverse_reverse, hmore], ?_⟩
    have hlater := List.forall₂_drop_append _ _ _ hasks
    rwa [List.length_replicate, List.drop_left' (List.length_replicate ..)] at hlater

theorem tries_eq_nil_iff : c.tries k asked = [] ↔ asked = [] := by
  cases asked with
  | nil => exact iff_of_true rfl rfl
  | cons cursor asked =>
      refine iff_of_false (fun h => ?_) (List.cons_ne_nil _ _)
      rw [tries_cons, List.append_eq_nil_iff, List.replicate_eq_nil_iff] at h
      exact (Wire.attempts_pos ..).ne' h.1

theorem AsksInTurn.length_received {cursors : List String} {w' : Wire}
    (h : c.AsksInTurn cursors w w') :
    w'.received.length = cursors.length + w.received.length := by
  obtain ⟨requests, hreceived, hasks⟩ := h
  rw [hreceived, List.length_append, List.length_reverse, hasks.length_eq]

/-- Where nothing arrives, nothing was asked for. -/
theorem AsksInTurn.eq_nil (h : c.AsksInTurn (c.tries k asked) w w) : asked = [] := by
  have hlength := h.length_received
  exact tries_eq_nil_iff.1 (List.length_eq_zero_iff.1 (Nat.right_eq_add.1 hlength))

/-- A listing that needs no more answers than those for the cursors it asks for has come to a last
page, and has asked for each cursor on its way there. -/
theorem walks_of_asksInTurn (hsend : isSendable c.token = true) (hopen : w.IsOpen)
    (hscript : w.script = (c.tries k asked).map k)
    (h : c.AsksInTurn (c.tries k asked) w (c.listFrom l w).2) :
    ∃ passed last, k.Walks l.cursor passed last ∧ k.Stops last ∧ asked = passed ++ [last] := by
  induction asked generalizing l w with
  | nil =>
      obtain ⟨more, hne, hmore⟩ := asksInTurn_of_script_nil hsend hopen hscript l
      have hlength := hmore.length_received
      rw [h.length_received] at hlength
      exact absurd (List.length_eq_zero_iff.1 (Nat.add_right_cancel hlength).symm) hne
  | cons cursor asked ih =>
      obtain ⟨hstep, hdrop⟩ := repeats_tries (hscript.trans (List.append_nil _).symm)
      rw [List.append_nil] at hdrop
      obtain ⟨-, htook⟩ := page_of_repeats hsend hopen hstep l.cursor
      rw [tries_cons] at h
      obtain ⟨rfl, hrest⟩ :=
        h.after (Wire.attempts_pos ..) htook (exists_received_listFrom c l w)
      by_cases hnext : ∃ next, k.LeadsOn l.cursor next
      · obtain ⟨next, hnext⟩ := hnext
        obtain ⟨found, hlist⟩ := listFrom_of_leadsOn hsend hopen hnext hstep
        rw [hlist] at hrest
        obtain ⟨passed, last, hwalks, hstops, rfl⟩ :=
          ih (l := ⟨found, next⟩) htook.1 (htook.2.1.trans hdrop) hrest
        exact ⟨_, last, .step hnext hwalks, hstops, rfl⟩
      · obtain ⟨result, hlist⟩ := listFrom_of_stops hsend hopen hnext hstep
        rw [hlist] at hrest
        obtain rfl := hrest.eq_nil
        exact ⟨[], l.cursor, .stay _, hnext, rfl⟩

/-- Credentials that cannot be sent keep a listing from asking. -/
theorem listFrom_unsendable (hsend : ¬ isSendable c.token = true) (l : Listing) (w : Wire) :
    c.listFrom l w = (.error (.requestFailed .listConversations), w) := by
  have hpage : c.page l.cursor w = (.error (.requestFailed .listConversations), w) := by
    rw [page, send, if_neg hsend]
    rfl
  rw [listFrom_eq, hpage]
  rfl

/-- A listing that has ended has asked for the cursors on the way to the last page. -/
theorem Ends.walks {result : Except SlackError (List Channel)} (h : c.Ends k asked result)
    (hsend : isSendable c.token = true) :
    ∃ passed last, k.Walks "" passed last ∧ k.Stops last ∧ asked = passed ++ [last] :=
  walks_of_asksInTurn hsend ⟨rfl, rfl⟩ rfl h.2

/-- A listing asks for no cursor twice. -/
theorem Ends.nodup {result : Except SlackError (List Channel)} (h : c.Ends k asked result) :
    asked.Nodup := by
  by_cases hsend : isSendable c.token = true
  · obtain ⟨passed, last, hwalks, hstops, rfl⟩ := h.walks hsend
    exact hwalks.nodup hstops
  · obtain ⟨-, h⟩ := h
    rw [listChannels, listFrom_unsendable hsend] at h
    obtain rfl := h.eq_nil
    exact List.nodup_nil

theorem not_ends_of_circles {result : Except SlackError (List Channel)}
    (hsend : isSendable c.token = true) (hcircles : k.Circles) : ¬ c.Ends k asked result := by
  intro h
  obtain ⟨passed, last, hwalks, hstops, -⟩ := h.walks hsend
  exact hwalks.not_circles hstops hcircles

theorem outlasts_of_circles (hsend : isSendable c.token = true) (hcircles : k.Circles) (n : Nat) :
    c.Outlasts k n := by
  rcases Catalogue.exists_walks k "" n with ⟨passed, last, hwalks, hstops⟩ |
    ⟨passed, last, hwalks, rfl⟩
  · exact absurd hcircles (hwalks.not_circles hstops)
  · exact outlasts_of_walks hsend hwalks

/-- From a server that answers every request for a page by its cursor, with finitely many cursors
on its pages: a listing ends exactly if its credentials cannot be sent or no cursor on the way
from the first page leads back to itself.  Where it ends, it has asked for the cursors on the way
to the last page and for each of them once, apart from what is tried again after a transient
failure; where it does not, it asks more often than any number. -/
theorem listing_ends_iff (c : Client) (k : Catalogue)
    (hfinite : {next | ∃ cursor, k.LeadsOn cursor next}.Finite) :
    ((∃ asked result, c.Ends k asked result) ↔ ¬ (isSendable c.token = true ∧ k.Circles)) ∧
      (∀ asked result, c.Ends k asked result → asked.Nodup ∧
        (isSendable c.token = true →
          ∃ passed last, k.Walks "" passed last ∧ k.Stops last ∧ asked = passed ++ [last])) ∧
      (isSendable c.token = true → k.Circles → ∀ n, c.Outlasts k n) := by
  refine ⟨⟨?_, fun h => ?_⟩, fun asked result h => ⟨h.nodup, h.walks⟩, outlasts_of_circles⟩
  · rintro ⟨asked, result, hends⟩ ⟨hsend, hcircles⟩
    exact not_ends_of_circles hsend hcircles hends
  · by_cases hsend : isSendable c.token = true
    · obtain ⟨passed, last, hwalks, hstops⟩ :=
        Catalogue.exists_last_of_not_circles hfinite fun hcircles => h ⟨hsend, hcircles⟩
      exact ⟨_, ends_of_walks hsend hwalks hstops⟩
    · refine ⟨[], .error (.requestFailed .listConversations), ?_⟩
      simp only [Ends, listChannels, listFrom_unsendable hsend]
      exact ⟨trivial, asksInTurn_nil c _⟩

/-! ## Two servers -/

theorem Catalogue.leadsOn_of_page {cursor : String} {bytes : List UInt8} {p : Reply.Page}
    (hanswer : k cursor = .answer 200 (.whole bytes))
    (hbytes : (Document.ofBytes? bytes).bind Reply.page? = some p) (hok : p.ok = true)
    (hnext : p.next ≠ "") : k.LeadsOn cursor p.next := by
  obtain ⟨d, hserves⟩ :=
    ServerStep.exists_serves (by decide : Status.isSuccess 200 = true) hbytes hok
  refine ⟨d, p, ?_, ?_, rfl⟩
  · rw [hanswer]
    exact hserves
  · rw [hserves.noCursor_iff]
    exact hnext

/-- A page that names another. -/
def leadingPage : List UInt8 :=
  Utf8.encode ("\x7b\"ok\":true,\"channels\":[\x7b\"id\":\"C1\",\"name\":\"general\"\x7d]," ++
    "\"response_metadata\":\x7b\"next_cursor\":\"a\"\x7d\x7d")

theorem page?_leadingPage : (Document.ofBytes? leadingPage).bind Reply.page? =
    some ⟨true, "", [⟨"C1", "general", false⟩], "a"⟩ := by
  decide +kernel

/-- The first page names one that is not there. -/
def broken : Catalogue := fun cursor =>
  if cursor = "" then .answer 200 (.whole leadingPage) else .answer 404 (.whole [])

theorem listing_broken :
    {next | ∃ cursor, broken.LeadsOn cursor next}.Finite ∧ ¬ broken.Circles ∧
      ∃ asked result, (⟨"xoxb-test", "", 3, 20000⟩ : Client).Ends broken asked result ∧
        asked.Nodup := by
  have hfirst : broken.LeadsOn "" "a" :=
    Catalogue.leadsOn_of_page rfl page?_leadingPage rfl (by decide)
  have hstops : ∀ cursor, cursor ≠ "" → broken.Stops cursor := by
    rintro cursor hcursor ⟨next, d, p, ⟨status, bytes, hanswer, hstatus, -⟩, -⟩
    rw [broken, if_neg hcursor] at hanswer
    obtain ⟨rfl, -⟩ := ServerStep.answer.inj hanswer
    exact absurd hstatus (by decide)
  have hfinite : {next | ∃ cursor, broken.LeadsOn cursor next}.Finite := by
    refine (Set.finite_singleton "a").subset ?_
    rintro next ⟨cursor, hnext⟩
    by_cases hcursor : cursor = ""
    · subst hcursor
      exact hnext.unique hfirst
    · exact absurd ⟨next, hnext⟩ (hstops cursor hcursor)
  have hcircles : ¬ broken.Circles :=
    (Catalogue.Walks.step hfirst (.stay "a")).not_circles (hstops "a" (by decide))
  obtain ⟨hends, hasked, -⟩ := listing_ends_iff ⟨"xoxb-test", "", 3, 20000⟩ broken hfinite
  obtain ⟨asked, result, h⟩ := hends.2 fun h => hcircles h.2
  exact ⟨hfinite, hcircles, asked, result, h, (hasked asked result h).1⟩

/-- Every page names the same one. -/
def round : Catalogue := fun _ => .answer 200 (.whole leadingPage)

/-- A page that names itself as the next keeps a listing asking. -/
theorem listing_round_never_ends :
    {next | ∃ cursor, round.LeadsOn cursor next}.Finite ∧
      let c : Client := ⟨"xoxb-test", "", 0, 20000⟩
      (¬ ∃ asked result, c.Ends round asked result) ∧ ∀ n, c.Outlasts round n := by
  have hnext : ∀ cursor, round.LeadsOn cursor "a" := fun cursor =>
    Catalogue.leadsOn_of_page rfl page?_leadingPage rfl (by decide)
  have hcircles : round.Circles := ⟨"a", .single (hnext ""), .single (hnext "a")⟩
  refine ⟨(Set.finite_singleton "a").subset ?_, ?_, ?_⟩
  · rintro next ⟨cursor, h⟩
    exact h.unique (hnext cursor)
  · rintro ⟨asked, result, h⟩
    exact not_ends_of_circles (by decide) hcircles h
  · exact outlasts_of_circles (by decide) hcircles

end Client

end ChannelRelay
