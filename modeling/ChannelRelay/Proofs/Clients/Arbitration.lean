import ChannelRelay.Proofs.Clients.Pool
import Mathlib

/-!
# Who wins a race

Clients of one store may read the same records and then write at the same time.
The store decides between them by the key of an insert, and by the key and the
token of a delete.  Here it is shown what the losers of a race are told, and that
no client ever destroys what another one was promised:

* a token that was reported as issued stays, in the very record that was inserted,
  until a delete names its key and its token (`Sound.issued`);
* of several inserts under one key only one is carried out, unless a delete frees
  the key in between (`Sound.deleted_between`);
* a revocation takes out one record, and it is one that the client itself has read
  (`Sound.revoked`); so does every delete of a pass (`Sound.retired`).
-/

namespace ChannelRelay

/-- A turn that deleted the record with the key and the token of `c`. -/
def Turn.Deletes (t : Turn) (c : Credential) : Prop :=
  ∃ d, t.exchange = ⟨.delete d, .ok ()⟩ ∧ d.key = c.key ∧ d.token = c.token

/-- A turn that took out exactly one record, which had the key and the token of `c`. -/
def Turn.TakesOut (t : Turn) (c : Credential) : Prop :=
  ∃ d, t.before.Perm (d :: t.after) ∧ d.key = c.key ∧ d.token = c.token

/-- A record is there from some turns on, as it is, until one of them deletes it;
`records` are those after all of the turns. -/
def StaysUntilDeleted (c : Credential) (turns : List Turn) (records : List Credential) : Prop :=
  (∀ (earlier : List Turn) (t : Turn) (later : List Turn), turns = earlier ++ t :: later →
    (∀ u ∈ earlier, ¬ u.Deletes c) → c ∈ t.before) ∧
  ((∀ u ∈ turns, ¬ u.Deletes c) → c ∈ records)

namespace Ledger.Recorded

/-- A record stays through turns that do not delete it. -/
theorem mem_of_not_deletes {l l' : Ledger} {turns : List Turn} {c : Credential}
    (h : Recorded l turns l') (hc : c ∈ l.records) (hkept : ∀ u ∈ turns, ¬ u.Deletes c) :
    c ∈ l'.records := by
  refine h.replay.mem_of_not_deleted hc fun e he d hd hkey htoken => ?_
  obtain ⟨u, hu, rfl⟩ := List.mem_map.1 he
  exact hkept u hu ⟨d, Exchange.deleted?_eq_some_iff.1 hd, hkey, htoken⟩

theorem staysUntilDeleted {l l' : Ledger} {turns : List Turn} {c : Credential}
    (h : Recorded l turns l') (hc : c ∈ l.records) :
    StaysUntilDeleted c turns l'.records := by
  constructor
  · rintro earlier t later rfl hkept
    obtain ⟨m, m', hearlier, hbefore, -⟩ := h.split
    rw [hbefore]
    exact hearlier.mem_of_not_deletes hc hkept
  · exact h.mem_of_not_deletes hc

end Ledger.Recorded

namespace Pool

variable {p : Pool} {client : Nat} {errand : Errand} {result : Except RelayError Outcome}

theorem Sound.after_eq_before (hsound : p.Sound) {t : Turn} (ht : t ∈ p.history)
    (hquiet : t.exchange.Quiet) : t.after = t.before := by
  obtain ⟨earlier, later, hsplit⟩ := List.append_of_mem ht
  obtain ⟨m, m', l, -, hbefore, hanswer, hafter, -⟩ := hsound.split hsplit
  rw [hbefore, hafter, hanswer.eq_of_quiet hquiet]

/-- A client whose result reports an event made the write in its last turn; its other
turns left the store as it was. -/
theorem Sound.exists_write {event : Event} (hsound : p.Sound)
    (hparty : p.parties[client]? = some ⟨errand, .done result⟩)
    (hevent : errand.event? result = some event) :
    ∃ (earlier : List Turn) (t : Turn) (later : List Turn),
      p.history = earlier ++ t :: later ∧ t.client = client ∧
      event.Explains (exchangesOf client earlier ++ [t.exchange]) ∧
      (∀ u ∈ earlier ++ later, u.client = client → u.after = u.before) ∧
      ∀ u ∈ later, u.client ≠ client := by
  have hends : errand.Ends (exchangesOf client p.history) result :=
    hsound.follows client _ hparty
  have hexplains := Errand.explains_of_ends hends hevent
  obtain ⟨past, e, hpast, hquiet⟩ := hexplains.quiet
  obtain ⟨earlier, t, later, hsplit, hclient, rfl, rfl, hlater⟩ :=
    exists_turn_of_exchangesOf hpast
  have hnone : ∀ u ∈ later, u.client ≠ client := by
    intro u hu hucl
    have hmem := mem_exchangesOf.2 ⟨u, hu, hucl, rfl⟩
    rw [hlater] at hmem
    exact absurd hmem List.not_mem_nil
  refine ⟨earlier, t, later, hsplit, hclient, hpast ▸ hexplains, ?_, hnone⟩
  intro u hu hucl
  rcases List.mem_append.1 hu with hu | hu
  · refine hsound.after_eq_before ?_ (hquiet _ (mem_exchangesOf.2 ⟨u, hu, hucl, rfl⟩))
    rw [hsplit]
    exact List.mem_append_left _ hu
  · exact absurd hucl (hnone u hu)

/-- A delete that was carried out took out one record, with the key and the token that
were named. -/
theorem Sound.takesOut (hsound : p.Sound) {earlier later : List Turn} {t : Turn}
    {c : Credential} (hsplit : p.history = earlier ++ t :: later)
    (hdelete : t.exchange = ⟨.delete c, .ok ()⟩) : t.TakesOut c := by
  obtain ⟨m, m', l, -, hbefore, hanswer, hafter, -⟩ := hsound.split hsplit
  have hdeleted := hanswer.delete_of_deleted (Exchange.deleted?_eq_some_iff.2 hdelete)
  obtain ⟨d, hperm, hkey, htoken⟩ := Ledger.exists_removed_of_delete hdeleted
  refine ⟨d, ?_, hkey, htoken⟩
  rw [hbefore, hafter]
  exact hperm

/-- A token that was reported as issued was inserted, and its record stays. -/
theorem Sound.issued {channelId name token : String} (hsound : p.Sound)
    (hparty : p.parties[client]? = some ⟨errand, .done result⟩)
    (hevent : errand.event? result = some (.issued channelId name token)) :
    ∃ (earlier : List Turn) (t : Turn) (later : List Turn) (c : Credential),
      p.history = earlier ++ t :: later ∧ t.client = client ∧
      t.exchange = ⟨.save c, .ok ()⟩ ∧ c.channelId = channelId ∧ c.channelName = name ∧
      c.token = token ∧ t.after.Perm (c :: t.before) ∧
      StaysUntilDeleted c later p.records := by
  obtain ⟨earlier, t, later, hsplit, hclient, hexplains, -⟩ :=
    hsound.exists_write hparty hevent
  obtain ⟨before, c, hlast, -, hid, hname, htoken⟩ := hexplains
  have hsave : t.exchange = ⟨.save c, .ok ()⟩ := (List.append_singleton_inj.1 hlast).2
  obtain ⟨m, m', l, -, hbefore, hanswer, hafter, hlater, hrecords⟩ := hsound.split hsplit
  have hsaved := hanswer.save_of_saved (Exchange.saved?_eq_some_iff.2 hsave)
  refine ⟨earlier, t, later, c, hsplit, hclient, hsave, hid, hname, htoken, ?_, ?_⟩
  · rw [hbefore, hafter, (Ledger.save_eq_ok_iff.1 hsaved).2]
    exact Ledger.place_perm c m.records
  · rw [hrecords]
    exact hlater.staysUntilDeleted ((Ledger.mem_save hsaved).2 (Or.inl rfl))

/-- An insert is carried out, or it is told of a conflict and changes nothing. -/
theorem Sound.saved_or_refused (hsound : p.Sound) {t : Turn} (ht : t ∈ p.history)
    {c : Credential} (hcall : t.exchange.call = .save c) :
    t.exchange = ⟨.save c, .ok ()⟩ ∨
      t.exchange = ⟨.save c, .error (.conflict c.channelName c.version)⟩ ∧
        t.after = t.before := by
  obtain ⟨earlier, later, hsplit⟩ := List.append_of_mem ht
  obtain ⟨m, m', l, -, -, hanswer, -⟩ := hsound.split hsplit
  obtain ⟨client, ⟨call, answer⟩, before, after⟩ := t
  obtain rfl : call = .save c := hcall
  rcases hanswer with ⟨-, hok⟩ | ⟨e, hrefused, herror, -⟩
  · left
    rw [show answer = .ok () from hok]
  · right
    obtain rfl := (Ledger.save_eq_error_iff.1 hrefused).2
    obtain rfl : answer = .error _ := herror
    exact ⟨rfl, hsound.after_eq_before ht ⟨rfl, rfl⟩⟩

/-- Two inserts under one key are both carried out only if the key is freed in between. -/
theorem Sound.deleted_between (hsound : p.Sound) {earlier middle later : List Turn}
    {t u : Turn} {c d : Credential}
    (hsplit : p.history = earlier ++ t :: (middle ++ u :: later))
    (ht : t.exchange = ⟨.save c, .ok ()⟩) (hu : u.exchange = ⟨.save d, .ok ()⟩)
    (hkey : c.key = d.key) : ∃ v ∈ middle, v.Deletes c := by
  obtain ⟨m, m', l, -, -, hanswer, -, hrest, -⟩ := hsound.split hsplit
  obtain ⟨k, k', hmiddle, -, hanswer', -⟩ := hrest.split
  have hsaved := hanswer.save_of_saved (Exchange.saved?_eq_some_iff.2 ht)
  have hsaved' := hanswer'.save_of_saved (Exchange.saved?_eq_some_iff.2 hu)
  apply Classical.byContradiction
  intro hnone
  have hc : c ∈ k.records := by
    refine hmiddle.mem_of_not_deletes ((Ledger.mem_save hsaved).2 (Or.inl rfl)) ?_
    exact fun v hv hdeletes => hnone ⟨v, hv, hdeletes⟩
  exact (Ledger.save_eq_ok_iff.1 hsaved').1 c hc hkey

/-- A reported removal took out one record: it has the token, it stood under the name,
and the client had read it. -/
theorem Sound.revoked {name token : String} (hsound : p.Sound)
    (hparty : p.parties[client]? = some ⟨errand, .done result⟩)
    (hevent : errand.event? result = some (.removed name token)) :
    ∃ (earlier : List Turn) (q : Turn) (between : List Turn) (t : Turn) (later : List Turn)
      (d : Credential), p.history = earlier ++ q :: (between ++ t :: later) ∧
      q.client = client ∧ q.exchange = ⟨.query name, .ok (under name q.before)⟩ ∧
      d ∈ under name q.before ∧ d.token = token ∧
      t.client = client ∧ t.exchange = ⟨.delete d, .ok ()⟩ ∧ t.TakesOut d ∧
      ∀ u ∈ earlier ++ q :: between ++ later, u.client = client → u.after = u.before := by
  obtain ⟨past, t, later, hsplit, hclient, hexplains, hquiet, -⟩ :=
    hsound.exists_write hparty hevent
  obtain ⟨before, d, hlast, -, htoken⟩ := hexplains
  have hdelete : t.exchange = ⟨.delete d, .ok ()⟩ := (List.append_singleton_inj.1 hlast).2
  obtain ⟨party, hparty', hmay⟩ := hsound.followed past t later hsplit
  obtain rfl := Option.some.inj (hparty.symm.trans (hclient ▸ hparty'))
  rw [hclient, hdelete] at hmay
  obtain ⟨found, hread, hd⟩ :=
    Errand.hasRead_of_removes (Errand.name?_of_event? hevent) hmay
  obtain ⟨earlier, q, between, rfl, hq, hquery, rfl, -⟩ := hsound.exists_query hsplit hread
  refine ⟨earlier, q, between, t, later, d, ?_, hq, hquery, hd, htoken, hclient, hdelete,
    hsound.takesOut hsplit hdelete, hquiet⟩
  rw [hsplit, List.append_assoc, List.cons_append]

/-- A delete of a pass that was carried out took out one record that the pass had read. -/
theorem Sound.retired {ops : String} (hsound : p.Sound) {past later : List Turn} {t : Turn}
    {d : Credential} (hsplit : p.history = past ++ t :: later)
    (hdelete : t.exchange = ⟨.delete d, .ok ()⟩) {rest : Dialogue (Except RelayError Outcome)}
    (hparty : p.parties[t.client]? = some ⟨.pass ops, rest⟩) :
    t.TakesOut d ∧ ∃ q ∈ past, q.client = t.client ∧ q.exchange = ⟨.scan, .ok q.before⟩ ∧
      d ∈ q.before := by
  refine ⟨hsound.takesOut hsplit hdelete, ?_⟩
  obtain ⟨party, hparty', hmay⟩ := hsound.followed past t later hsplit
  obtain rfl := Option.some.inj (hparty.symm.trans hparty')
  rw [hdelete] at hmay
  obtain ⟨found, hscan, hd⟩ := hmay
  obtain ⟨q, hq, hclient, hexchange⟩ := mem_exchangesOf.1 hscan
  obtain ⟨earlier, between, rfl⟩ := List.append_of_mem hq
  rw [List.append_assoc, List.cons_append] at hsplit
  obtain ⟨m, m', l, -, hbefore, hanswer, -⟩ := hsound.split hsplit
  rw [hexchange] at hanswer
  have hfound : found = q.before := (Except.ok.inj hanswer.1).trans hbefore.symm
  subst hfound
  exact ⟨q, hq, hclient, hexchange, hd⟩

/-- However the calls of any number of clients fall between each other: a token that
was reported as issued stays in its record until a delete of it; of several inserts
under one key without a delete of it in between one is carried out, and the others are
told of a conflict and change nothing; and what a revocation or a pass takes out is one
record, with the key and the token of one that it has read. -/
theorem writes_arbitrated (tokens : List (Option String)) (moves : List Move) :
    let p := (start tokens).run moves
    (∀ client errand result channelId name token,
      p.parties[client]? = some ⟨errand, .done result⟩ →
      errand.event? result = some (.issued channelId name token) →
      ∃ (earlier : List Turn) (t : Turn) (later : List Turn) (c : Credential),
        p.history = earlier ++ t :: later ∧ t.client = client ∧
        t.exchange = ⟨.save c, .ok ()⟩ ∧ c.channelId = channelId ∧ c.channelName = name ∧
        c.token = token ∧ t.after.Perm (c :: t.before) ∧
        StaysUntilDeleted c later p.records) ∧
    (∀ t ∈ p.history, ∀ c, t.exchange.call = .save c →
      t.exchange = ⟨.save c, .ok ()⟩ ∨
        t.exchange = ⟨.save c, .error (.conflict c.channelName c.version)⟩ ∧
          t.after = t.before) ∧
    (∀ (earlier : List Turn) (t : Turn) (middle : List Turn) (u : Turn) (later : List Turn)
      (c d : Credential), p.history = earlier ++ t :: (middle ++ u :: later) →
      t.exchange = ⟨.save c, .ok ()⟩ → u.exchange = ⟨.save d, .ok ()⟩ → c.key = d.key →
      ∃ v ∈ middle, v.Deletes c) ∧
    (∀ client errand result name token,
      p.parties[client]? = some ⟨errand, .done result⟩ →
      errand.event? result = some (.removed name token) →
      ∃ (earlier : List Turn) (q : Turn) (between : List Turn) (t : Turn) (later : List Turn)
        (d : Credential), p.history = earlier ++ q :: (between ++ t :: later) ∧
        q.client = client ∧ q.exchange = ⟨.query name, .ok (under name q.before)⟩ ∧
        d ∈ under name q.before ∧ d.token = token ∧
        t.client = client ∧ t.exchange = ⟨.delete d, .ok ()⟩ ∧ t.TakesOut d ∧
        ∀ u ∈ earlier ++ q :: between ++ later, u.client = client → u.after = u.before) ∧
    (∀ (past : List Turn) (t : Turn) (later : List Turn) (d : Credential) ops rest,
      p.history = past ++ t :: later →
      t.exchange = ⟨.delete d, .ok ()⟩ →
      p.parties[t.client]? = some ⟨.pass ops, rest⟩ →
      t.TakesOut d ∧ ∃ q ∈ past, q.client = t.client ∧
        q.exchange = ⟨.scan, .ok q.before⟩ ∧ d ∈ q.before) := by
  intro p
  have hsound : p.Sound := sound_run (sound_start tokens) moves
  refine ⟨?_, ?_, ?_, ?_, ?_⟩
  · intro client errand result channelId name token hparty hevent
    exact hsound.issued hparty hevent
  · intro t ht c hcall
    exact hsound.saved_or_refused ht hcall
  · intro earlier t middle u later c d hsplit ht hu hkey
    exact hsound.deleted_between hsplit ht hu hkey
  · intro client errand result name token hparty hevent
    exact hsound.revoked hparty hevent
  · intro past t later d ops rest hsplit hdelete hparty
    exact hsound.retired hsplit hdelete hparty

/-- Two rotations with the same view of the first token. -/
def race : List Move :=
  let chat : Chat := .directory ⟨[], none, []⟩
  [.join (.issue .epoch "C1" "ci"), .turn 0 chat, .turn 0 chat, .turn 0 chat,
    .join (.add .epoch "C1" "ci"), .join (.add .epoch "C1" "ci"), .turn 1 chat, .turn 2 chat,
    .turn 1 chat, .turn 2 chat, .turn 1 chat, .turn 2 chat]

theorem race_first :
    ((start [some "a", some "b", some "c"]).run race).parties[1]? =
      some ⟨.add .epoch "C1" "ci",
        .done (.ok (.added (.generated "b")))⟩ := by
  cbv

theorem race_second :
    ((start [some "a", some "b", some "c"]).run race).parties[2]? =
      some ⟨.add .epoch "C1" "ci",
        .done (.error (.store (.conflict "ci" 1)))⟩ := by
  cbv

theorem race_arbitrated :
    let p := (start [some "a", some "b", some "c"]).run race
    let errand : Errand := .add .epoch "C1" "ci"
    p.parties[1]? = some ⟨errand, .done (.ok (.added (.generated "b")))⟩ ∧
      p.parties[2]? = some ⟨errand, .done (.error (.store (.conflict "ci" 1)))⟩ ∧
      ∃ (earlier : List Turn) (t : Turn) (later : List Turn) (c : Credential),
        p.history = earlier ++ t :: later ∧ t.client = 1 ∧
        t.exchange = ⟨.save c, .ok ()⟩ ∧ c.channelId = "C1" ∧ c.channelName = "ci" ∧
        c.token = "b" ∧ t.after.Perm (c :: t.before) ∧
        StaysUntilDeleted c later p.records := by
  refine ⟨race_first, race_second, ?_⟩
  exact (writes_arbitrated _ race).1 1 _ _ "C1" "ci" "b" race_first rfl

end Pool

end ChannelRelay
