import ChannelRelay.Proofs.Dialogue.Search
import ChannelRelay.Reconcile.Pass

/-!
# Errands

The operations on tokens and the reconciliation pass as errands of one kind, and
the rule that each of them follows.  `Errand.May` says which calls an errand makes
after which exchanges, and `Errand.Ends` what its result tells about them:

* an operation on tokens reads the records of one name first, and once;
* it makes at most one write, as its last call, and the write is computed from what
  was read;
* its result reports an event exactly if the write was carried out;
* a pass writes nothing but deletes of records that it has read.

`Errand.follows` proves the rule for all answers, so it also holds where others
write between two calls of an errand.
-/

namespace ChannelRelay

/-- The time of issue in runs that are written out. -/
def Instant.epoch : Instant := ⟨0, 0, by decide, by decide⟩

/-- What a client may ask of the relay. -/
inductive Errand where
  /-- The entries under a name. -/
  | entries (name : String)
  | verify (name token : String)
  | issue (now : Instant) (channelId name : String)
  | add (now : Instant) (channelId name : String)
  | revoke (name token : String)
  | revokeRenamed (channelId name token : String)
  /-- A reconciliation pass. -/
  | pass (ops : String)

/-- What comes of an errand. -/
inductive Outcome where
  | entries (found : List Entry)
  | verdict (v : Rotation.Verdict)
  | issued (i : Rotation.Issue)
  | added (a : Rotation.Added)
  | revoked (r : Rotation.Revoked)
  | revokedRenamed (r : Rotation.RevokedRenamed)
  | reported (r : Reconcile.Report)

/-- The version that is given to a record that comes after others. -/
def nextVersion : List Credential → Int32
  | [] => 0
  | c :: _ => c.version + 1

/-- What happens to a token. -/
inductive Event where
  | issued (channelId name token : String)
  | removed (name token : String)
deriving DecidableEq, Repr

namespace Event

def name : Event → String
  | .issued _ name _ => name
  | .removed name _ => name

def token : Event → String
  | .issued _ _ token => token
  | .removed _ token => token

/-- What an event says of the exchanges that led to it: the last one was the write,
and the others left the store as it was. -/
def Explains (past : List Exchange) : Event → Prop
  | .issued channelId name token =>
    ∃ before c, past = before ++ [⟨.save c, .ok ()⟩] ∧ (∀ e ∈ before, e.Quiet) ∧
      c.channelId = channelId ∧ c.channelName = name ∧ c.token = token
  | .removed _ token =>
    ∃ before c, past = before ++ [⟨.delete c, .ok ()⟩] ∧ (∀ e ∈ before, e.Quiet) ∧
      c.token = token

theorem Explains.quiet {event : Event} {past : List Exchange} (h : event.Explains past) :
    ∃ before last, past = before ++ [last] ∧ ∀ e ∈ before, e.Quiet := by
  cases event with
  | issued channelId name token =>
      obtain ⟨before, c, hpast, hquiet, -⟩ := h
      exact ⟨before, _, hpast, hquiet⟩
  | removed name token =>
      obtain ⟨before, c, hpast, hquiet, -⟩ := h
      exact ⟨before, _, hpast, hquiet⟩

end Event

namespace Errand

/-- The work that an errand is. -/
def operation : Errand → Operation Outcome
  | .entries name => Outcome.entries <$> Rotation.entries name
  | .verify name token => Outcome.verdict <$> Rotation.verify name token
  | .issue now channelId name => Outcome.issued <$> Rotation.issue now channelId name
  | .add now channelId name => Outcome.added <$> Rotation.add now channelId name
  | .revoke name token => Outcome.revoked <$> Rotation.revoke name token
  | .revokeRenamed channelId name token =>
    Outcome.revokedRenamed <$> Rotation.revokeRenamed channelId name token
  | .pass ops => Outcome.reported <$> Reconcile.pass ops

/-- The name whose records an errand reads; a pass reads all records. -/
def name? : Errand → Option String
  | .entries name | .verify name _ | .issue _ _ name | .add _ _ name | .revoke name _
  | .revokeRenamed _ name _ => some name
  | .pass _ => none

/-- The event that a result reports to the client of an operation on tokens. -/
def event? : Errand → Except RelayError Outcome → Option Event
  | .issue _ channelId name, .ok (.issued ⟨token, true⟩) => some (.issued channelId name token)
  | .add _ channelId name, .ok (.added (.generated token)) => some (.issued channelId name token)
  | .revoke name token, .ok (.revoked .revoked) => some (.removed name token)
  | .revokeRenamed _ name token, .ok (.revokedRenamed .revoked) => some (.removed name token)
  | _, _ => none

/-- The exchanges of a client that has read the records of a name and has done
nothing but draw tokens since. -/
def HasRead (name : String) (found : List Credential) (past : List Exchange) : Prop :=
  ∃ draws, past = ⟨.query name, .ok found⟩ :: draws ∧ ∀ e ∈ draws, e.call = .draw

/-- When an errand draws a token: for the first record of a name, or for the second. -/
def Draws (past : List Exchange) : Errand → Prop
  | .issue _ _ name => HasRead name [] past
  | .add _ _ name => ∃ a, HasRead name [a] past
  | _ => False

/-- When an errand inserts a record. -/
def Adds (past : List Exchange) (c : Credential) : Errand → Prop
  | .issue now channelId name =>
    HasRead name [] past ∧ ∃ token, c = .issuedAt now channelId name token 0
  | .add now channelId name =>
    ∃ a token, HasRead name [a] past ∧ token ≠ a.token ∧
      c = .issuedAt now channelId name token (a.version + 1)
  | _ => False

/-- When an errand deletes a record. -/
def Removes (past : List Exchange) (c : Credential) : Errand → Prop
  | .revoke name token => ∃ found, HasRead name found past ∧ c ∈ found ∧ c.token = token
  | .revokeRenamed channelId name token =>
    ∃ found, HasRead name found past ∧ c ∈ found ∧ c.token = token ∧ c.channelId ≠ channelId
  | .pass _ => ∃ found, ⟨.scan, .ok found⟩ ∈ past ∧ c ∈ found
  | _ => False

/-- The calls that an errand makes after the exchanges `past`. -/
def May (r : Errand) (past : List Exchange) : Call → Prop
  | .query name => r.name? = some name ∧ past = []
  | .draw => r.Draws past
  | .save c => r.Adds past c
  | .delete c => r.Removes past c
  | .scan => r.name? = none ∧ past = []
  | .listChannels | .post .. | .count .. => r.name? = none
  | .conversation _ | .counters => False

/-- What the result of an errand says of its exchanges.  Without an event an
operation on tokens has left the store as it was. -/
def Ends (r : Errand) (past : List Exchange) (result : Except RelayError Outcome) : Prop :=
  r.name? ≠ none →
    match r.event? result with
    | some event => event.Explains past
    | none => ∀ e ∈ past, e.Quiet

theorem hasRead_append {name : String} {found : List Credential} {past draws : List Exchange}
    (h : HasRead name found past) (hdraws : ∀ e ∈ draws, e.call = .draw) :
    HasRead name found (past ++ draws) := by
  obtain ⟨earlier, rfl, hearlier⟩ := h
  refine ⟨earlier ++ draws, rfl, fun e he => ?_⟩
  rcases List.mem_append.1 he with he | he
  · exact hearlier e he
  · exact hdraws e he

theorem quiet_of_hasRead {name : String} {found : List Credential} {past : List Exchange}
    (h : HasRead name found past) : ∀ e ∈ past, e.Quiet := by
  obtain ⟨draws, rfl, hdraws⟩ := h
  intro e he
  rcases List.mem_cons.1 he with rfl | he
  · exact Exchange.quiet_of_call (by simp) (by simp)
  · have hcall := hdraws e he
    exact Exchange.quiet_of_call (by simp [hcall]) (by simp [hcall])

/-! ## The rule of each errand

The proofs walk through the operations call by call; at each end the exchanges are
known as a list. -/

theorem event?_error (r : Errand) (e : RelayError) : r.event? (.error e) = none := by
  cases r <;> rfl

/-- A result without an event fits exchanges that changed nothing. -/
theorem ends_of_quiet {r : Errand} {past : List Exchange} {result : Except RelayError Outcome}
    (hquiet : ∀ e ∈ past, e.Quiet) (hevent : r.event? result = none) : r.Ends past result := by
  intro _
  rw [hevent]
  exact hquiet

theorem ends_of_event {r : Errand} {past : List Exchange} {result : Except RelayError Outcome}
    {event : Event} (hevent : r.event? result = some event) (h : event.Explains past) :
    r.Ends past result := by
  intro _
  rw [hevent]
  exact h

/-- Only operations on tokens report events, and they are about the name that they read. -/
theorem name?_of_event? {r : Errand} {result : Except RelayError Outcome} {event : Event}
    (h : r.event? result = some event) : r.name? = some event.name := by
  unfold event? at h
  split at h
  case h_5 => exact absurd h (by simp)
  all_goals
    obtain rfl := Option.some.inj h
    rfl

theorem explains_of_ends {r : Errand} {past : List Exchange}
    {result : Except RelayError Outcome} {event : Event} (hends : r.Ends past result)
    (hevent : r.event? result = some event) : event.Explains past := by
  have hname : r.name? ≠ none := by
    rw [name?_of_event? hevent]
    simp
  have h := hends hname
  rw [hevent] at h
  exact h

/-- An insert is computed from the records that were found under its name: there is one
at most, and its token is not used again. -/
theorem hasRead_of_adds {r : Errand} {past : List Exchange} {c : Credential}
    (h : r.Adds past c) :
    ∃ found, HasRead c.channelName found past ∧ found.length ≤ 1 ∧
      c.version = nextVersion found ∧ ∀ d ∈ found, d.token ≠ c.token := by
  cases r with
  | issue now channelId name =>
      obtain ⟨hread, token, rfl⟩ := h
      exact ⟨[], hread, by simp, rfl, by simp⟩
  | add now channelId name =>
      obtain ⟨a, token, hread, hne, rfl⟩ := h
      refine ⟨[a], hread, by simp, rfl, fun d hd => ?_⟩
      rw [List.mem_singleton.1 hd]
      exact hne.symm
  | _ => exact h.elim

/-- An operation on tokens deletes none but records that it has read. -/
theorem hasRead_of_removes {r : Errand} {past : List Exchange} {name : String}
    {c : Credential} (hname : r.name? = some name) (h : r.Removes past c) :
    ∃ found, HasRead name found past ∧ c ∈ found := by
  cases r with
  | revoke name' token =>
      obtain rfl := Option.some.inj hname
      obtain ⟨found, hread, hc, -⟩ := h
      exact ⟨found, hread, hc⟩
  | revokeRenamed channelId name' token =>
      obtain rfl := Option.some.inj hname
      obtain ⟨found, hread, hc, -⟩ := h
      exact ⟨found, hread, hc⟩
  | pass ops => exact absurd hname (by simp [name?])
  | _ => exact h.elim

theorem quiet_query (name : String) (answer : Except StoreError (List Credential)) :
    Exchange.Quiet ⟨.query name, answer⟩ :=
  Exchange.quiet_of_call (by simp) (by simp)

section Reads

variable {α : Type} {r : Errand} {name : String} {outcome : α → Outcome}
  {f : List Credential → Operation α}

/-- An errand whose first call is a query goes on from what it finds. -/
theorem follows_query (hname : r.name? = some name)
    (hfound : ∀ found, (f found).run.Follows r.May
      (fun past result => r.Ends past (result.map outcome)) [⟨.query name, .ok found⟩]) :
    (outcome <$> (Operation.query name >>= f)).run.Follows r.May r.Ends [] := by
  refine (Operation.follows_map _ _).2 ((Operation.follows_attempt_bind _ _ _).2 ?_)
  refine ⟨⟨hname, rfl⟩, fun answer => ?_⟩
  cases answer with
  | error e => exact ends_of_quiet (by simp [quiet_query]) (event?_error r _)
  | ok found => exact hfound found

theorem records_bind (name : String) (f : List Credential → Operation α) :
    Rotation.records name >>= f = Operation.query name >>= fun found =>
      f (found.mergeSort fun a b => a.version ≤ b.version) := by
  refine congrArg (Dialogue.ask (.query name)) (funext fun answer => ?_)
  cases answer with
  | error e => rfl
  | ok found => rfl

/-- The same for records in the order of their versions. -/
theorem follows_records (hname : r.name? = some name)
    (hfound : ∀ found sorted, sorted.Perm found → (f sorted).run.Follows r.May
      (fun past result => r.Ends past (result.map outcome)) [⟨.query name, .ok found⟩]) :
    (outcome <$> (Rotation.records name >>= f)).run.Follows r.May r.Ends [] := by
  rw [records_bind]
  exact follows_query hname fun found => hfound found _ (List.mergeSort_perm _ _)

end Reads

theorem hasRead_query (name : String) (found : List Credential) :
    HasRead name found [⟨.query name, .ok found⟩] :=
  ⟨[], rfl, by simp⟩

theorem follows_entries (name : String) :
    (entries name).operation.run.Follows (entries name).May (entries name).Ends [] := by
  refine follows_records rfl ?_
  intro found sorted _
  show (entries name).Ends [⟨.query name, .ok found⟩]
    (Except.map .entries (sorted.mapM Credential.entry))
  exact ends_of_quiet (by simp [quiet_query]) rfl

theorem follows_verify (name token : String) :
    (verify name token).operation.run.Follows (verify name token).May
      (verify name token).Ends [] := by
  have hends : ∀ found result, (verify name token).Ends [⟨.query name, .ok found⟩] result :=
    fun found result => ends_of_quiet (by simp [quiet_query]) rfl
  refine follows_query rfl ?_
  intro found
  split
  · exact hends found (.ok (.verdict .notFound))
  · split
    · rename_i c _
      exact hends found (.ok (.verdict (.matched c.channelId c.channelName)))
    · exact hends found (.ok (.verdict .unmatch))

/-- A write that is refused leaves nothing to report. -/
theorem quiet_append {past : List Exchange} {e : Exchange} (hpast : ∀ e ∈ past, e.Quiet)
    (he : e.Quiet) : ∀ e' ∈ past ++ [e], e'.Quiet := by
  intro e' he'
  rcases List.mem_append.1 he' with he' | he'
  · exact hpast e' he'
  · rw [List.mem_singleton.1 he']
    exact he

theorem follows_issue (now : Instant) (channelId name : String) :
    (issue now channelId name).operation.run.Follows (issue now channelId name).May
      (issue now channelId name).Ends [] := by
  refine follows_records rfl ?_
  intro found sorted hperm
  cases sorted with
  | cons c rest =>
      show (issue now channelId name).Ends _ (.ok (.issued ⟨c.token, false⟩))
      exact ends_of_quiet (by simp [quiet_query]) rfl
  | nil =>
      obtain rfl : found = [] := hperm.symm.eq_nil
      have hread : HasRead name [] [⟨.query name, .ok []⟩] := hasRead_query name []
      refine (Operation.follows_attempt_bind _ _ _).2 ⟨hread, fun drawn => ?_⟩
      have hdrawn : HasRead name [] ([⟨.query name, .ok []⟩] ++ [⟨.draw, drawn⟩]) :=
        hasRead_append hread (by simp)
      cases drawn with
      | error e =>
          show (issue now channelId name).Ends _ (.error (.tokenGeneration e))
          exact ends_of_quiet (quiet_of_hasRead hdrawn) rfl
      | ok token =>
          refine (Operation.follows_attempt_bind _ _ _).2
            ⟨⟨hdrawn, token, rfl⟩, fun saved => ?_⟩
          cases saved with
          | error e =>
              show (issue now channelId name).Ends _ (.error (.store e))
              exact ends_of_quiet (quiet_append (quiet_of_hasRead hdrawn) ⟨rfl, rfl⟩) rfl
          | ok u =>
              show (issue now channelId name).Ends _ (.ok (.issued ⟨token, true⟩))
              exact ends_of_event rfl ⟨_, _, rfl, quiet_of_hasRead hdrawn, rfl, rfl, rfl⟩

/-- Drawing until a token is fresh adds draws to the exchanges, and gives a token that
is not in use. -/
theorem follows_drawFresh {r : Errand} {inUse : List Credential}
    {ends : List Exchange → Except RelayError String → Prop} {past : List Exchange}
    (draws : Nat)
    (hmay : ∀ drawn : List Exchange, (∀ e ∈ drawn, e.call = .draw) → r.May (past ++ drawn) .draw)
    (hfail : ∀ (drawn : List Exchange) (e : RelayError), (∀ e ∈ drawn, e.call = .draw) →
      ends (past ++ drawn) (.error e))
    (hfresh : ∀ (drawn : List Exchange) (token : String), (∀ e ∈ drawn, e.call = .draw) →
      (∀ c ∈ inUse, c.token ≠ token) → ends (past ++ drawn) (.ok token)) :
    (Rotation.drawFresh inUse draws).run.Follows r.May ends past := by
  refine (Rotation.follows_drawing inUse draws past).imp ?_ ?_
  · rintro before call ⟨rfl, drawn, rfl⟩
    exact hmay _ fun e => Exchange.call_of_mem_draws
  · rintro before result ⟨drawn, rfl, hsearched⟩
    cases hsearched with
    | exhausted _ _ => exact hfail _ _ fun e => Exchange.call_of_mem_draws
    | @decided vain last _ _ hlast =>
        cases last with
        | error e => exact hfail _ _ fun e => Exchange.call_of_mem_draws
        | ok token =>
            refine hfresh _ token (fun e => Exchange.call_of_mem_draws) ?_
            exact fun c hc htoken => hlast ⟨c, hc, htoken⟩

theorem follows_add (now : Instant) (channelId name : String) :
    (add now channelId name).operation.run.Follows (add now channelId name).May
      (add now channelId name).Ends [] := by
  refine follows_records rfl ?_
  intro found sorted hperm
  rcases sorted with - | ⟨a, - | ⟨b, rest⟩⟩
  · show (add now channelId name).Ends _ (.ok (.added .noTokenFound))
    exact ends_of_quiet (by simp [quiet_query]) rfl
  · obtain rfl : found = [a] := List.perm_singleton.1 hperm.symm
    have hread : HasRead name [a] [⟨.query name, .ok [a]⟩] := hasRead_query name [a]
    refine (Operation.follows_bind _ _).2 (follows_drawFresh _ ?_ ?_ ?_)
    · intro drawn hdraws
      exact ⟨a, hasRead_append hread hdraws⟩
    · intro drawn e hdraws
      exact ends_of_quiet (quiet_of_hasRead (hasRead_append hread hdraws)) (event?_error _ _)
    · intro drawn token hdraws hfresh
      have hdrawn := hasRead_append hread hdraws
      have hne : token ≠ a.token := (hfresh a List.mem_cons_self).symm
      refine (Operation.follows_attempt_bind _ _ _).2
        ⟨⟨a, token, hdrawn, hne, rfl⟩, fun saved => ?_⟩
      cases saved with
      | error e =>
          show (add now channelId name).Ends _ (.error (.store e))
          exact ends_of_quiet (quiet_append (quiet_of_hasRead hdrawn) ⟨rfl, rfl⟩) rfl
      | ok u =>
          show (add now channelId name).Ends _ (.ok (.added (.generated token)))
          exact ends_of_event rfl ⟨_, _, rfl, quiet_of_hasRead hdrawn, rfl, rfl, rfl⟩
  · obtain ⟨latest, hlatest⟩ : ∃ latest, (a :: b :: rest).getLast? = some latest :=
      ⟨_, List.getLast?_eq_some_getLast (List.cons_ne_nil a (b :: rest))⟩
    have hmany : Rotation.maxTokens ≤ (a :: b :: rest).length := by simp [Rotation.maxTokens]
    simp only [hlatest, if_pos hmany]
    show (add now channelId name).Ends _ (.ok (.added .tooManyTokens))
    exact ends_of_quiet (by simp [quiet_query]) rfl

/-- A delete that ends an errand is its only write. -/
theorem follows_delete {r : Errand} {name token : String} {found : List Credential}
    {c : Credential} (result : Except RelayError Outcome)
    (hmay : r.Removes [⟨.query name, .ok found⟩] c) (htoken : c.token = token)
    (hevent : r.event? result = some (.removed name token)) :
    ((Operation.delete c).run.Follows r.May (fun past deleted =>
      match deleted with
      | .ok () => r.Ends past result
      | .error e => r.Ends past (.error e)) [⟨.query name, .ok found⟩]) := by
  refine (Operation.follows_attempt _ _).2 ⟨hmay, fun deleted => ?_⟩
  cases deleted with
  | error e =>
      exact ends_of_quiet (quiet_append (by simp [quiet_query]) ⟨rfl, rfl⟩) (event?_error _ _)
  | ok u => exact ends_of_event hevent ⟨_, _, rfl, by simp [quiet_query], htoken⟩

theorem follows_revoke (name token : String) :
    (revoke name token).operation.run.Follows (revoke name token).May
      (revoke name token).Ends [] := by
  refine follows_records rfl ?_
  intro found sorted hperm
  cases hfind : sorted.find? (·.token == token) with
  | none =>
      show (revoke name token).Ends _ (.ok (.revoked .notFound))
      exact ends_of_quiet (by simp [quiet_query]) rfl
  | some c =>
      have hmem : c ∈ found := hperm.mem_iff.1 (List.mem_of_find?_eq_some hfind)
      have htoken : c.token = token := by simpa using List.find?_some hfind
      refine (Operation.follows_bind _ _).2 ?_
      refine (follows_delete (.ok (.revoked .revoked)) ?_ htoken rfl).mono ?_
      · exact ⟨found, hasRead_query name found, hmem, htoken⟩
      · intro past deleted h
        cases deleted with
        | ok u => exact h
        | error e => exact h

theorem follows_revokeRenamed (channelId name token : String) :
    (revokeRenamed channelId name token).operation.run.Follows
      (revokeRenamed channelId name token).May (revokeRenamed channelId name token).Ends [] := by
  refine follows_records rfl ?_
  intro found sorted hperm
  cases hfind : sorted.find? (·.token == token) with
  | none =>
      show (revokeRenamed channelId name token).Ends _ (.ok (.revokedRenamed .notFound))
      exact ends_of_quiet (by simp [quiet_query]) rfl
  | some c =>
      have hmem : c ∈ found := hperm.mem_iff.1 (List.mem_of_find?_eq_some hfind)
      have htoken : c.token = token := by simpa using List.find?_some hfind
      dsimp only
      split
      · show (revokeRenamed channelId name token).Ends _ (.ok (.revokedRenamed (.stillLinked c.channelId)))
        exact ends_of_quiet (by simp [quiet_query]) rfl
      · rename_i hother
        refine (Operation.follows_bind _ _).2 ?_
        refine (follows_delete (.ok (.revokedRenamed .revoked)) ?_ htoken rfl).mono ?_
        · exact ⟨found, hasRead_query name found, hmem, htoken, hother⟩
        · intro past deleted h
          cases deleted with
          | ok u => exact h
          | error e => exact h

/-! ### Passes

All that is needed of the steps of a pass is that none of them loses what the pass
has read. -/

theorem ends_pass (ops : String) (past : List Exchange) (result : Except RelayError Outcome) :
    (pass ops).Ends past result :=
  fun h => absurd rfl h

section Pass

variable {ops : String} {found : List Credential} {past : List Exchange}

theorem follows_notify (channel channelName text : String)
    (hpast : ⟨.scan, .ok found⟩ ∈ past) :
    (Reconcile.notify channel channelName text).run.Follows (pass ops).May
      (fun past _ => ⟨.scan, .ok found⟩ ∈ past) past := by
  refine (Operation.follows_attempt_bind _ _ _).2 ⟨rfl, fun result => ?_⟩
  cases result with
  | error e => exact List.mem_append_left _ hpast
  | ok posted => exact List.mem_append_left _ hpast

theorem follows_count (value : String) (hpast : ⟨.scan, .ok found⟩ ∈ past) :
    (Operation.count .reconcileEvents value).run.Follows (pass ops).May
      (fun past _ => ⟨.scan, .ok found⟩ ∈ past) past :=
  ⟨rfl, fun _ => List.mem_append_left _ hpast⟩

theorem follows_retire {a : ArchivedRecord} (ha : a.record ∈ found)
    (hpast : ⟨.scan, .ok found⟩ ∈ past) :
    (Reconcile.retire ops a).run.Follows (pass ops).May
      (fun past _ => ⟨.scan, .ok found⟩ ∈ past) past := by
  refine Operation.follows_bind_keep (follows_notify _ _ _ hpast) fun _ past hpast => ?_
  refine Operation.follows_bind_keep ?_ fun _ past hpast => follows_count _ hpast
  exact (Operation.follows_attempt _ _).2
    ⟨⟨found, hpast, ha⟩, fun _ => List.mem_append_left _ hpast⟩

theorem follows_announceMigration (c : Credential) (hpast : ⟨.scan, .ok found⟩ ∈ past) :
    (Reconcile.announceMigration ops c).run.Follows (pass ops).May
      (fun past _ => ⟨.scan, .ok found⟩ ∈ past) past := by
  refine Operation.follows_bind_keep (follows_notify _ _ _ hpast) fun _ past hpast => ?_
  exact Operation.follows_bind_keep (follows_notify _ _ _ hpast) fun _ past => follows_count _

theorem follows_announceRenaming (r : Renaming) (hpast : ⟨.scan, .ok found⟩ ∈ past) :
    (Reconcile.announceRenaming ops r).run.Follows (pass ops).May
      (fun past _ => ⟨.scan, .ok found⟩ ∈ past) past := by
  refine Operation.follows_bind_keep (follows_notify _ _ _ hpast) fun _ past hpast => ?_
  exact Operation.follows_bind_keep (follows_notify _ _ _ hpast) fun _ past => follows_count _

theorem follows_each {α : Type} {step : α → Operation Unit} {steps : List α}
    (hstep : ∀ a ∈ steps, ∀ past, ⟨.scan, .ok found⟩ ∈ past →
      (step a).run.Follows (pass ops).May (fun past _ => ⟨.scan, .ok found⟩ ∈ past) past)
    (hpast : ⟨.scan, .ok found⟩ ∈ past) :
    (Reconcile.each step steps).run.Follows (pass ops).May
      (fun past _ => ⟨.scan, .ok found⟩ ∈ past) past := by
  induction steps generalizing past with
  | nil => exact hpast
  | cons a rest ih =>
      refine Operation.follows_bind_keep (hstep a List.mem_cons_self past hpast) ?_
      intro _ past hpast
      exact ih (fun b hb => hstep b (List.mem_cons_of_mem a hb)) hpast

theorem follows_carryOut {plan : Plan} (hplan : ∀ a ∈ plan.archived, a.record ∈ found)
    (hpast : ⟨.scan, .ok found⟩ ∈ past) :
    (Reconcile.carryOut ops plan).run.Follows (pass ops).May
      (fun past _ => ⟨.scan, .ok found⟩ ∈ past) past := by
  refine Operation.follows_bind_keep (follows_each (fun a ha past hpast => ?_) hpast) ?_
  · exact follows_retire (hplan a ha) hpast
  intro _ past hpast
  refine Operation.follows_bind_keep (follows_each (fun c _ past hpast => ?_) hpast) ?_
  · exact follows_announceMigration c hpast
  intro _ past hpast
  refine Operation.follows_bind_keep (follows_each (fun r _ past hpast => ?_) hpast) ?_
  · exact follows_announceRenaming r hpast
  intro _ past hpast
  exact hpast

/-- A plan archives none but the records that it is made for. -/
theorem record_mem_of_mem_archived {records : List Credential} {channels : List Channel}
    {a : ArchivedRecord} (ha : a ∈ (Plan.of records channels).archived) : a.record ∈ records := by
  obtain ⟨c, hc, harchived⟩ := List.mem_filterMap.1 ha
  unfold Plan.archived? at harchived
  split at harchived
  · split at harchived
    · obtain rfl := Option.some.inj harchived
      exact hc
    · exact absurd harchived (by simp)
  · exact absurd harchived (by simp)

end Pass

theorem follows_pass (ops : String) :
    (pass ops).operation.run.Follows (pass ops).May (pass ops).Ends [] := by
  refine (Operation.follows_map _ _).2 ?_
  refine (Operation.follows_attempt_bind _ _ _).2 ⟨⟨rfl, rfl⟩, fun scanned => ?_⟩
  cases scanned with
  | error e => exact ends_pass ops _ (.error (.store e))
  | ok records =>
      refine (Operation.follows_attempt_bind _ _ _).2 ⟨rfl, fun listed => ?_⟩
      cases listed with
      | error e => exact ends_pass ops _ (.error (.slack e))
      | ok channels =>
          refine (follows_carryOut (fun a ha => record_mem_of_mem_archived ha) ?_).mono ?_
          · exact List.mem_append_left _ (List.mem_append_right _ List.mem_cons_self)
          · exact fun past result _ => ends_pass ops past _

/-- Every errand follows its rule, whatever it is told. -/
theorem follows (r : Errand) : r.operation.run.Follows r.May r.Ends [] := by
  cases r with
  | entries name => exact follows_entries name
  | verify name token => exact follows_verify name token
  | issue now channelId name => exact follows_issue now channelId name
  | add now channelId name => exact follows_add now channelId name
  | revoke name token => exact follows_revoke name token
  | revokeRenamed channelId name token => exact follows_revokeRenamed channelId name token
  | pass ops => exact follows_pass ops

end Errand

end ChannelRelay
