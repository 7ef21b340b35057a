import ChannelRelay.Proofs.Passes.Entrant

/-!
# Passes that race

Any number of passes over one store, with their calls in any order.  All of them retire
the same records in the same order, and each one starts from those that are left when it
reads the store.  So the deletes of all passes together follow that one order:

* what was deleted is always the beginning of it (`Racing.retired`),
* what a pass has still to delete is always an end of it, and at least all that is left
  (`Entrant.Fits.pending`).

A pass fails when it comes to a record that is gone.  Whoever deleted the last one that
is gone has exactly what is left before it, and cannot fail before somebody else has
deleted more (`Racing.leader`): this is why somebody succeeds in the end (`passes_race`).
-/

namespace ChannelRelay

/-- A chat service that lists some channels and delivers what is posted. -/
structure Chat.Obliging (channels : List Channel) (chat : Chat) : Prop where
  lists : chat.listChannels.1 = .ok channels
  delivers : ∀ channel name payload, (chat.post channel name payload).1 = .ok .ok

/-- A pass joins or goes on.  All passes are told of the same channels, and all that they
post is delivered. -/
inductive Move.IsPass (channels : List Channel) : Move → Prop where
  | join (ops : String) : IsPass channels (.join (.pass ops))
  | turn (client : Nat) {chat : Chat} (h : chat.Obliging channels) :
      IsPass channels (.turn client chat)

namespace Pool

/-- A pool over a ledger, which nobody has joined. -/
def holding (s : Surroundings) (l : Ledger) : Pool :=
  ⟨{ s with store := .ledger .plain l }, [], []⟩

/-- The invariant of a race: `gone` was deleted and `rest` is left of the records that are
to be retired, and the parties are passes at some stages. -/
structure Racing (l : Ledger) (channels : List Channel) (gone rest : List Credential)
    (es : List Entrant) (p : Pool) : Prop where
  retired : (Plan.of l.records channels).retired = gone ++ rest
  store : p.surroundings.store = .ledger .plain (l.without gone)
  deleted : deletedIn p.history = gone
  parties : p.parties = es.map Entrant.party
  fits : ∀ (i : Nat) (e : Entrant), es[i]? = some e →
    e.Fits channels (gone ++ rest) rest p.history i
  /-- Whoever deleted last is not behind. -/
  leader : gone = [] ∨ ∃ (i : Nat) (e : Entrant), es[i]? = some e ∧ e.todo? channels = some rest

section Race

variable {l : Ledger} {channels : List Channel} {gone rest gone' rest' : List Credential}
  {es : List Entrant} {p : Pool} {e e' : Entrant} {client : Nat} {chat : Chat}

theorem racing_holding (s : Surroundings) (l : Ledger) (channels : List Channel) :
    (holding s l).Racing l channels [] (Plan.of l.records channels).retired [] where
  retired := rfl
  store := by rw [Ledger.without_nil]; rfl
  deleted := rfl
  parties := rfl
  fits i e h := absurd h (by simp)
  leader := Or.inl rfl

/-- No record is retired twice. -/
theorem Racing.disjoint (h : p.Racing l channels gone rest es) : ∀ c ∈ gone, c ∉ rest := by
  have hnodup := Plan.retired_nodup l channels
  rw [h.retired] at hnodup
  intro c hc hrest
  exact (List.nodup_append.1 hnodup).2.2 c hc c hrest rfl

theorem Racing.mem_records (h : p.Racing l channels gone rest es) {c : Credential}
    (hc : c ∈ gone ++ rest) : c ∈ l.records := by
  rw [← h.retired] at hc
  exact (Plan.mem_retired.1 hc).1

theorem racing_join (h : p.Racing l channels gone rest es) (ops : String) :
    (p.step (.join (.pass ops))).Racing l channels gone rest (es ++ [⟨ops, .fresh⟩]) where
  retired := h.retired
  store := h.store
  deleted := h.deleted
  parties := by
    show p.parties ++ [_] = _
    rw [h.parties, List.map_append]
    rfl
  fits i e hi := by
    rcases Nat.lt_or_ge i es.length with hold | hnew
    · rw [List.getElem?_append_left hold] at hi
      exact h.fits i e hi
    · rw [List.getElem?_append_right hnew, List.getElem?_singleton] at hi
      split at hi
      · obtain rfl := Option.some.inj hi
        exact Entrant.fits_fresh ops
      · exact absurd hi (by simp)
  leader := by
    rcases h.leader with hnone | ⟨i, e, hi, htodo⟩
    · exact Or.inl hnone
    · obtain ⟨hold, -⟩ := List.getElem?_eq_some_iff.1 hi
      exact Or.inr ⟨i, e, (List.getElem?_append_left hold).trans hi, htodo⟩

/-- A turn takes one pass from its stage to the next one, and leaves the others where they
are. -/
theorem Racing.turn {call : Call} {next : call.Answer → Dialogue (Except RelayError Outcome)}
    {reply : call.Answer} (h : p.Racing l channels gone rest es)
    (he : es[client]? = some e) (hask : e.rest = .ask call next)
    (hreply : (p.answer call chat).1 = reply)
    (hstore : (p.answer call chat).2.store = .ledger .plain (l.without gone'))
    (hparty : (⟨.pass e.ops, next reply⟩ : Party) = e'.party)
    (hgone : gone' = gone ++ (Exchange.deleted? ⟨call, reply⟩).toList)
    (hleft : gone ++ rest = gone' ++ rest')
    (hfits : ∀ t : Turn, t.client = client → t.exchange = ⟨call, reply⟩ →
      e'.Fits channels (gone ++ rest) rest' (p.history ++ [t]) client)
    (hleader : gone' = [] ∨ ∃ (i : Nat) (f : Entrant), (es.set client e')[i]? = some f ∧
      f.todo? channels = some rest') :
    (p.turn client chat).Racing l channels gone' rest' (es.set client e') := by
  have hclient : client < es.length := (List.getElem?_eq_some_iff.1 he).1
  have hparties : p.parties[client]? = some ⟨.pass e.ops, .ask call next⟩ := by
    rw [h.parties, List.getElem?_map, he, ← hask]
    rfl
  have hturn : p.turn client chat =
      ⟨(p.answer call chat).2, p.parties.set client ⟨.pass e.ops, next reply⟩,
        p.history ++ [⟨client, ⟨call, reply⟩, p.records,
          (p.answer call chat).2.store.records⟩]⟩ := by
    unfold Pool.turn
    rw [hparties, ← hreply]
  have hrest : rest' <:+ rest := by
    refine ⟨(Exchange.deleted? ⟨call, reply⟩).toList, ?_⟩
    rw [hgone, List.append_assoc] at hleft
    exact (List.append_cancel_left hleft).symm
  rw [hturn]
  constructor
  · rw [h.retired, hleft]
  · exact hstore
  · rw [deletedIn_append, h.deleted, hgone]
    cases hdeleted : Exchange.deleted? ⟨call, reply⟩ with
    | none => simp [deletedIn, hdeleted]
    | some c => simp [deletedIn, hdeleted]
  · rw [h.parties, hparty, List.map_set]
  · intro i f hi
    rw [← hleft]
    by_cases hsame : client = i
    · subst hsame
      rw [List.getElem?_set_self hclient] at hi
      obtain rfl := Option.some.inj hi
      exact hfits _ rfl rfl
    · rw [List.getElem?_set_ne hsame] at hi
      exact (h.fits i f hi).later hrest hsame
  · exact hleader

/-- A turn that deletes nothing, after which the one who deleted last is still not behind. -/
theorem Racing.turn_quiet {call : Call}
    {next : call.Answer → Dialogue (Except RelayError Outcome)} {reply : call.Answer}
    (h : p.Racing l channels gone rest es) (he : es[client]? = some e)
    (hask : e.rest = .ask call next) (hreply : (p.answer call chat).1 = reply)
    (hstore : (p.answer call chat).2.store = .ledger .plain (l.without gone))
    (hparty : (⟨.pass e.ops, next reply⟩ : Party) = e'.party)
    (hquiet : Exchange.deleted? ⟨call, reply⟩ = none)
    (hfits : ∀ t : Turn, t.client = client → t.exchange = ⟨call, reply⟩ →
      e'.Fits channels (gone ++ rest) rest (p.history ++ [t]) client)
    (hkeep : e.todo? channels = some rest → e'.todo? channels = some rest) :
    (p.turn client chat).Racing l channels gone rest (es.set client e') := by
  refine h.turn he hask hreply hstore hparty (by simp [hquiet]) rfl hfits ?_
  have hclient : client < es.length := (List.getElem?_eq_some_iff.1 he).1
  rcases h.leader with hnone | ⟨i, f, hi, htodo⟩
  · exact Or.inl hnone
  · by_cases hsame : client = i
    · subst hsame
      obtain rfl := Option.some.inj (he.symm.trans hi)
      exact Or.inr ⟨client, e', List.getElem?_set_self hclient, hkeep htodo⟩
    · exact Or.inr ⟨i, f, (List.getElem?_set_ne hsame).trans hi, htodo⟩

/-- A pass that reads the store finds all that is left. -/
theorem racing_scan {ops : String} (h : p.Racing l channels gone rest es)
    (he : es[client]? = some ⟨ops, .fresh⟩) (chat : Chat) :
    (p.turn client chat).Racing l channels gone rest
      (es.set client ⟨ops, .read (l.without gone).records⟩) := by
  obtain ⟨_, hstore, hreply, rfl⟩ := Surroundings.answers_ledger
    (s := { p.surroundings with chat := chat }) h.store .scan
  have htodo : Entrant.todo? channels ⟨ops, .read (l.without gone).records⟩ = some rest :=
    congrArg some (Plan.retired_rest h.retired)
  refine h.turn_quiet he (Entrant.rest_fresh ops) hreply hstore rfl rfl ?_ fun _ => htodo
  intro t hclient hexchange
  constructor
  · intro todo h'
    obtain rfl := Option.some.inj (htodo.symm.trans h')
    exact ⟨List.suffix_rfl, List.suffix_append gone rest⟩
  · intro todo h' c hc
    obtain rfl := Option.some.inj (htodo.symm.trans h')
    have hgone : c ∈ deletedIn (p.history ++ [t]) := mem_deletedIn_of_own hc
    rw [deletedIn_append, h.deleted] at hgone
    have hnone : deletedIn [t] = [] := by simp [deletedIn, hexchange, Exchange.deleted?]
    rw [hnone, List.append_nil] at hgone
    exact h.disjoint c hgone
  · intro report calls hstage
    exact absurd hstage (by simp)
  · intro c hstage
    exact absurd hstage (by simp)

/-- A pass that lists the channels makes its plan. -/
theorem racing_list {ops : String} {records : List Credential}
    (h : p.Racing l channels gone rest es) (he : es[client]? = some ⟨ops, .read records⟩)
    (hchat : chat.Obliging channels) :
    let plan := Plan.of records channels
    (p.turn client chat).Racing l channels gone rest (es.set client
      ⟨ops, .working plan.report (plan.tasks.flatMap (Reconcile.Task.calls ops))⟩) := by
  intro plan
  have htodo : Entrant.todo? channels
      ⟨ops, .working plan.report (plan.tasks.flatMap (Reconcile.Task.calls ops))⟩ =
      Entrant.todo? channels ⟨ops, .read records⟩ := by
    refine congrArg some ?_
    rw [Reconcile.filterMap_deleted?_calls, Plan.filterMap_record?_tasks]
  refine h.turn_quiet he rfl hchat.lists h.store rfl rfl ?_ fun hleads => htodo.trans hleads
  intro t hclient hexchange
  refine (h.fits client _ he).proceed hclient (by rw [hexchange]; rfl) htodo ?_ fun c => by simp
  rintro report calls hstage call hcall
  obtain ⟨-, rfl⟩ := Stage.working.inj hstage
  exact Reconcile.isWork_of_mem_calls ops plan.tasks call hcall

section Working

variable {ops : String} {report : Reconcile.Report} {calls : List Call}

/-- A post that is delivered or a count takes a pass to its next call. -/
theorem racing_call {call : Call} {reply : call.Answer} (h : p.Racing l channels gone rest es)
    (he : es[client]? = some ⟨ops, .working report (call :: calls)⟩)
    (hreply : (p.answer call chat).1 = reply)
    (hstore : (p.answer call chat).2.store = .ledger .plain (l.without gone))
    (hdone : Exchange.failure? ⟨call, reply⟩ = none) (hkept : call.deleted? = none)
    (hquiet : Exchange.deleted? ⟨call, reply⟩ = none) :
    (p.turn client chat).Racing l channels gone rest
      (es.set client ⟨ops, .working report calls⟩) := by
  have htodo : Entrant.todo? channels ⟨ops, .working report calls⟩ =
      Entrant.todo? channels ⟨ops, .working report (call :: calls)⟩ :=
    congrArg some (List.filterMap_cons_none hkept).symm
  refine h.turn_quiet he rfl hreply hstore ?_ hquiet ?_ fun hleads => htodo.trans hleads
  · rw [hdone]
    rfl
  · intro t hclient hexchange
    have hfits := h.fits client _ he
    refine hfits.proceed hclient (hexchange ▸ hquiet) htodo ?_ fun c => by simp
    rintro report' calls' hstage c hc
    obtain ⟨-, rfl⟩ := Stage.working.inj hstage
    exact hfits.work _ _ rfl c (List.mem_cons_of_mem call hc)

/-- A pass that comes to a record that is gone has lost. -/
theorem racing_lose {c : Credential} (h : p.Racing l channels gone rest es)
    (he : es[client]? = some ⟨ops, .working report (.delete c :: calls)⟩) (hc : c ∈ gone)
    (chat : Chat) :
    (p.turn client chat).Racing l channels gone rest (es.set client ⟨ops, .failed c⟩) := by
  have hmem : c ∈ l.records := h.mem_records (List.mem_append_left rest hc)
  have hnone := Ledger.delete_of_gone hmem hc
  have htodo : Entrant.todo? channels ⟨ops, .working report (.delete c :: calls)⟩ =
      some (c :: calls.filterMap Call.deleted?) := rfl
  obtain ⟨l', hstore, ⟨hok, -⟩ | ⟨_, herror, hreply, rfl⟩⟩ := Surroundings.answers_ledger
    (s := { p.surroundings with chat := chat }) h.store (.delete c)
  · exact absurd (hnone.symm.trans hok) (by simp)
  obtain rfl := Except.error.inj (hnone.symm.trans herror)
  refine h.turn_quiet he rfl hreply hstore rfl rfl ?_ ?_
  · intro t hclient hexchange
    constructor
    · intro todo h'
      exact absurd h' (by simp [Entrant.todo?])
    · intro todo h'
      exact absurd h' (by simp [Entrant.todo?])
    · intro report' calls' hstage
      exact absurd hstage (by simp)
    · intro d hstage
      obtain rfl := Stage.failed.inj hstage
      rw [← h.deleted] at hc
      obtain ⟨u, hu, hdelete⟩ := mem_deletedIn.1 hc
      obtain ⟨earlier, between, hsplit⟩ := List.append_of_mem hu
      refine ⟨earlier, u, between, t, [], by simp [hsplit], ?_, hdelete, hclient, hexchange⟩
      -- It is not the pass itself that has deleted the record.
      intro hown
      refine (h.fits client _ he).own _ htodo c ?_ List.mem_cons_self
      refine List.mem_filterMap.2 ⟨u.exchange, mem_exchangesOf.2 ⟨u, hu, hown, rfl⟩, ?_⟩
      rw [hdelete]
      rfl
  · intro hleads
    obtain rfl := Option.some.inj (htodo.symm.trans hleads)
    exact absurd List.mem_cons_self (h.disjoint c hc)

/-- A pass that comes to a record that is still there has all that is left before it, and
stays in the lead. -/
theorem racing_win {c : Credential} (h : p.Racing l channels gone rest es)
    (he : es[client]? = some ⟨ops, .working report (.delete c :: calls)⟩) (hc : c ∉ gone)
    (chat : Chat) :
    (p.turn client chat).Racing l channels (gone ++ [c]) (calls.filterMap Call.deleted?)
      (es.set client ⟨ops, .working report calls⟩) := by
  have hfits := h.fits client _ he
  have hclient : client < es.length := (List.getElem?_eq_some_iff.1 he).1
  obtain ⟨hsuffix, hretired⟩ := hfits.pending (c :: calls.filterMap Call.deleted?) rfl
  have hnodup : (gone ++ rest).Nodup := h.retired ▸ Plan.retired_nodup l channels
  have hmem : c ∈ gone ++ rest := hretired.subset List.mem_cons_self
  have hnot : c ∉ calls.filterMap Call.deleted? :=
    (List.nodup_cons.1 (hnodup.sublist hretired.sublist)).1
  -- What is left contains the record, so it is no shorter than what the pass has to do.
  have hrest : rest = c :: calls.filterMap Call.deleted? := by
    rcases List.suffix_cons_iff.1 hsuffix with hall | hless
    · exact hall
    · have hcrest : c ∈ rest := (List.mem_append.1 hmem).resolve_left hc
      exact absurd (hless.subset hcrest) hnot
  have hdelete := Ledger.delete_of_mem (Ledger.mem_without.2 ⟨h.mem_records hmem, hc⟩)
  rw [Ledger.without_without] at hdelete
  obtain ⟨l', hstore, ⟨hok, hreply⟩ | ⟨_, herror, -, -⟩⟩ := Surroundings.answers_ledger
    (s := { p.surroundings with chat := chat }) h.store (.delete c)
  case inr => exact absurd (hdelete.symm.trans herror) (by simp)
  obtain rfl := Except.ok.inj (hdelete.symm.trans hok)
  refine h.turn he rfl hreply hstore rfl rfl (by simp [hrest]) ?_ ?_
  · intro t ht hexchange
    constructor
    · intro todo h'
      obtain rfl := Option.some.inj h'
      exact ⟨List.suffix_rfl, (List.suffix_cons c _).trans hretired⟩
    · intro todo h' d hd
      obtain rfl := Option.some.inj h'
      subst ht
      rw [exchangesOf_append, exchangesOf_self, List.filterMap_append] at hd
      rcases List.mem_append.1 hd with hbefore | hnow
      · intro hmem'
        exact hfits.own _ rfl d hbefore (List.mem_cons_of_mem c hmem')
      · rw [hexchange] at hnow
        rw [List.mem_singleton.1 hnow]
        exact hnot
    · rintro report' calls' hstage call hcall
      obtain ⟨-, rfl⟩ := Stage.working.inj hstage
      exact hfits.work _ _ rfl call (List.mem_cons_of_mem _ hcall)
    · intro d hstage
      exact absurd hstage (by simp)
  · exact Or.inr ⟨client, _, List.getElem?_set_self hclient, rfl⟩

end Working

/-- One move of a race. -/
theorem racing_step {m : Move} (h : p.Racing l channels gone rest es)
    (hm : m.IsPass channels) :
    ∃ gone' rest' es', (p.step m).Racing l channels gone' rest' es' := by
  cases hm with
  | join ops => exact ⟨_, _, _, racing_join h ops⟩
  | @turn client chat hchat =>
      show ∃ gone' rest' es', (p.turn client chat).Racing l channels gone' rest' es'
      cases he : es[client]? with
      | none =>
          have hsame : p.turn client chat = p := by
            unfold Pool.turn
            rw [h.parties, List.getElem?_map, he]
            rfl
          exact ⟨gone, rest, es, hsame.symm ▸ h⟩
      | some e =>
          have hended : ∀ result, e.rest = .done result → p.turn client chat = p := by
            intro result hdone
            unfold Pool.turn
            rw [h.parties, List.getElem?_map, he, Option.map_some, Entrant.party, hdone]
          obtain ⟨ops, stage⟩ := e
          cases stage with
          | fresh => exact ⟨_, _, _, racing_scan h he chat⟩
          | read records => exact ⟨_, _, _, racing_list h he hchat⟩
          | failed c => exact ⟨gone, rest, es, (hended _ rfl).symm ▸ h⟩
          | working report calls =>
              cases calls with
              | nil => exact ⟨gone, rest, es, (hended _ rfl).symm ▸ h⟩
              | cons call calls =>
                  have hwork := (h.fits client _ he).work _ _ rfl call List.mem_cons_self
                  cases call with
                  | post channel name payload =>
                      exact ⟨_, _, _, racing_call h he (hchat.delivers channel name payload)
                        h.store rfl rfl rfl⟩
                  | count family value => exact ⟨_, _, _, racing_call h he rfl h.store rfl rfl rfl⟩
                  | delete c =>
                      by_cases hc : c ∈ gone
                      · exact ⟨_, _, _, racing_lose h he hc chat⟩
                      · exact ⟨_, _, _, racing_win h he hc chat⟩
                  | _ => exact absurd hwork (by simp [Call.isWork])

theorem racing_run {moves : List Move} (h : p.Racing l channels gone rest es)
    (hmoves : ∀ m ∈ moves, m.IsPass channels) :
    ∃ gone' rest' es', (p.run moves).Racing l channels gone' rest' es' := by
  induction moves generalizing p gone rest es with
  | nil => exact ⟨gone, rest, es, h⟩
  | cons m moves ih =>
      obtain ⟨_, _, _, hstep⟩ := racing_step h (hmoves m List.mem_cons_self)
      exact ih hstep fun m' hm' => hmoves m' (List.mem_cons_of_mem m hm')

/-! ## The end of a race -/

theorem Racing.getElem?_party {party : Party} {i : Nat} (h : p.Racing l channels gone rest es)
    (hparty : p.parties[i]? = some party) : ∃ e, es[i]? = some e ∧ party = e.party := by
  rw [h.parties, List.getElem?_map] at hparty
  obtain ⟨e, he, rfl⟩ := Option.map_eq_some_iff.1 hparty
  exact ⟨e, he, rfl⟩

theorem Racing.mem_of_lost {c : Credential} (h : p.Racing l channels gone rest es)
    (hlost : Lost client c p.history) : c ∈ gone := by
  obtain ⟨earlier, t, between, u, later, hsplit, -, hdelete, -⟩ := hlost
  rw [← h.deleted]
  exact mem_deletedIn.2 ⟨t, by simp [hsplit], hdelete⟩

/-- What a pass failed on was deleted by another one. -/
theorem Racing.lost_of_error {errand : Errand} {error : RelayError}
    (h : p.Racing l channels gone rest es)
    (hparty : p.parties[client]? = some ⟨errand, .done (.error error)⟩) :
    ∃ c ∈ gone, error = .store (.noMatch c.channelName c.version) ∧
      Lost client c p.history := by
  obtain ⟨e, he, hsame⟩ := h.getElem?_party hparty
  have hdone : e.rest = .done (.error error) := (congrArg Party.rest hsame).symm
  rcases Entrant.stage_of_done hdone with ⟨_, -, hok⟩ | ⟨c, hstage, herror⟩
  · exact absurd hok (by simp)
  · have hlost := (h.fits client e he).lost c hstage
    exact ⟨c, h.mem_of_lost hlost, Except.error.inj herror, hlost⟩

/-- If all have ended, somebody has carried out all of its plan. -/
theorem Racing.exists_done (h : p.Racing l channels gone rest es) (hjoined : p.parties ≠ [])
    (hended : ∀ party ∈ p.parties, ∃ result, party.rest = .done result) :
    ∃ (i : Nat) (e : Entrant) (report : Reconcile.Report), es[i]? = some e ∧
      e.stage = .working report [] := by
  have hstage : ∀ (i : Nat) (e : Entrant), es[i]? = some e →
      (∃ report, e.stage = .working report []) ∨ ∃ c, e.stage = .failed c := by
    intro i e he
    have hmem : e.party ∈ p.parties := by
      rw [h.parties]
      exact List.mem_map_of_mem (List.mem_of_getElem? he)
    obtain ⟨result, hdone⟩ := hended _ hmem
    exact (Entrant.stage_of_done hdone).imp (fun ⟨report, hs, _⟩ => ⟨report, hs⟩)
      fun ⟨c, hs, _⟩ => ⟨c, hs⟩
  rcases h.leader with hnone | ⟨i, e, he, htodo⟩
  · -- Nothing was deleted, so nobody can have failed.
    obtain ⟨party, hparty⟩ := List.exists_mem_of_ne_nil _ hjoined
    obtain ⟨i, hi⟩ := List.mem_iff_getElem?.1 hparty
    obtain ⟨e, he, -⟩ := h.getElem?_party hi
    rcases hstage i e he with ⟨report, hs⟩ | ⟨c, hs⟩
    · exact ⟨i, e, report, he, hs⟩
    · have hc := h.mem_of_lost ((h.fits i e he).lost c hs)
      rw [hnone] at hc
      exact absurd hc List.not_mem_nil
  · rcases hstage i e he with ⟨report, hs⟩ | ⟨c, hs⟩
    · exact ⟨i, e, report, he, hs⟩
    · exact absurd htodo (by simp [Entrant.todo?, hs])

end Race

/-- When any number of passes have raced and all have ended: somebody succeeded; whoever
failed came to a record that another one had deleted; and the deletes of all of them
together took out the records of archived channels, each once and in order, and nothing
else. -/
theorem passes_race {s : Surroundings} {l : Ledger} {channels : List Channel}
    {moves : List Move} (hmoves : ∀ m ∈ moves, m.IsPass channels)
    (hjoined : ((holding s l).run moves).parties ≠ [])
    (hended : ∀ party ∈ ((holding s l).run moves).parties, ∃ result, party.rest = .done result) :
    let p := (holding s l).run moves
    let archived := l.records.filter fun c => (Plan.archived? channels c).isSome
    (∃ (client : Nat) (errand : Errand) (report : Reconcile.Report),
      p.parties[client]? = some ⟨errand, .done (.ok (.reported report))⟩) ∧
    (∀ client errand error, p.parties[client]? = some ⟨errand, .done (.error error)⟩ →
      ∃ c ∈ archived, error = .store (.noMatch c.channelName c.version) ∧
        Lost client c p.history) ∧
    deletedIn p.history = archived ∧ archived.Nodup ∧
    p.surroundings.store = .ledger .plain (l.without archived) := by
  intro p archived
  obtain ⟨gone, rest, es, h⟩ := racing_run (racing_holding s l channels) hmoves
  obtain ⟨i, e, report, he, hstage⟩ := h.exists_done hjoined hended
  have hretired : archived = gone ++ rest :=
    (Plan.retired_of l.records channels).symm.trans h.retired
  -- Whoever has succeeded has left nothing.
  have htodo : e.todo? channels = some [] := by simp [Entrant.todo?, hstage]
  have hrest : rest = [] := List.suffix_nil.1 ((h.fits i e he).pending [] htodo).1
  rw [hrest, List.append_nil] at hretired
  refine ⟨⟨i, .pass e.ops, report, ?_⟩, ?_, ?_, ?_, ?_⟩
  · show ((holding s l).run moves).parties[i]? = _
    rw [h.parties, List.getElem?_map, he, Option.map_some, Entrant.party, Entrant.rest, hstage]
    rfl
  · intro client errand error hparty
    rw [hretired]
    exact h.lost_of_error hparty
  · exact h.deleted.trans hretired.symm
  · exact l.nodup.filter _
  · rw [hretired]
    exact h.store

/-- Two passes that have read the same record before either of them deletes it. -/
def rivals : List Move :=
  let chat : Chat := .directory ⟨[⟨"C1", "ci", true⟩], none, []⟩
  [.join (.pass "OPS"), .join (.pass "OPS"), .turn 0 chat, .turn 1 chat, .turn 0 chat,
    .turn 1 chat, .turn 0 chat, .turn 1 chat, .turn 1 chat, .turn 0 chat, .turn 1 chat]

/-- The ledger over which they meet. -/
def disputed : Ledger :=
  ⟨[⟨"ci", 0, "C1", "a", "2024-01-01T00:00:00Z"⟩], List.pairwise_singleton _ _⟩

theorem isPass_rivals : ∀ m ∈ rivals, m.IsPass [⟨"C1", "ci", true⟩] := by
  have hchat : (Chat.directory ⟨[⟨"C1", "ci", true⟩], none, []⟩).Obliging
      [⟨"C1", "ci", true⟩] := ⟨rfl, fun _ _ _ => rfl⟩
  intro m hm
  simp only [rivals, List.mem_cons, List.not_mem_nil, or_false] at hm
  rcases hm with rfl | rfl | rfl | rfl | rfl | rfl | rfl | rfl | rfl | rfl | rfl
  all_goals first | exact .join _ | exact .turn _ hchat

/-- The pool in which they meet. -/
def rivalry : Pool :=
  (holding (.ofStore (.ledger .plain .empty) []) disputed).run rivals

theorem parties_rivalry : rivalry.parties =
    [⟨.pass "OPS", .done (.error (.store (.noMatch "ci" 0)))⟩,
      ⟨.pass "OPS", .done (.ok (.reported ⟨1, 0, 0⟩))⟩] := by
  rfl

theorem ended_rivalry : ∀ party ∈ rivalry.parties, ∃ result, party.rest = .done result := by
  intro party hparty
  rw [parties_rivalry] at hparty
  rcases List.mem_cons.1 hparty with rfl | hparty
  · exact ⟨_, rfl⟩
  · rw [List.mem_singleton.1 hparty]
    exact ⟨_, rfl⟩

/-- The first of them has lost, and the second one has left nothing. -/
theorem rivals_race :
    rivalry.parties[0]? = some ⟨.pass "OPS", .done (.error (.store (.noMatch "ci" 0)))⟩ ∧
      rivalry.parties[1]? = some ⟨.pass "OPS", .done (.ok (.reported ⟨1, 0, 0⟩))⟩ ∧
      (∃ c, Lost 0 c rivalry.history) ∧
      deletedIn rivalry.history =
        disputed.records.filter fun c => (Plan.archived? [⟨"C1", "ci", true⟩] c).isSome := by
  have hfirst : rivalry.parties[0]? =
      some ⟨.pass "OPS", .done (.error (.store (.noMatch "ci" 0)))⟩ := by
    rw [parties_rivalry]
    rfl
  have hsecond : rivalry.parties[1]? =
      some ⟨.pass "OPS", .done (.ok (.reported ⟨1, 0, 0⟩))⟩ := by
    rw [parties_rivalry]
    rfl
  have hjoined : rivalry.parties ≠ [] := by
    rw [parties_rivalry]
    exact List.cons_ne_nil _ _
  obtain ⟨-, hlost, hdeleted, -⟩ := passes_race isPass_rivals hjoined ended_rivalry
  obtain ⟨c, -, -, hrace⟩ := hlost 0 _ _ hfirst
  exact ⟨hfirst, hsecond, ⟨c, hrace⟩, hdeleted⟩

end Pool

end ChannelRelay
