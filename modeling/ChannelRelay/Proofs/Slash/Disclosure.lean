import ChannelRelay.Proofs.Entries
import ChannelRelay.Proofs.Slash.Boundary
import ChannelRelay.Proofs.Visits.Verdict

/-!
# What a channel is shown

A channel is shown the live tokens of the name that it has now, and each of them is accepted
for the channel that it was issued to (`Slash.shown_tokens`).  That need not be the channel that
asks: the tokens stay with the name when it passes from one channel to another
(`Slash.shown_after_renaming`).
-/

namespace ChannelRelay

namespace Surroundings

variable {s : Surroundings} {l : Ledger}

theorem store_answer_query (hstore : s.store = .ledger .plain l) (name : String) :
    (answer (.query name) s).2.store = .ledger .plain l := by
  show (s.store.query name).2 = _
  rw [hstore]
  rfl

/-- The entries of a name are those of its records, in some order. -/
theorem perform_entries (hstore : s.store = .ledger .plain l) (name : String) :
    ∃ sorted : List Credential, sorted.Perm (under name l.records) ∧
      s.perform (Rotation.entries name) =
        (sorted.mapM Credential.entry, (answer (.query name) s).2) := by
  refine ⟨_, List.mergeSort_perm (under name l.records) fun a b => a.version ≤ b.version, ?_⟩
  rw [Rotation.entries, Errand.records_bind, perform_query_bind hstore]
  rfl

end Surroundings

namespace Slash

/-- The tokens of a name are shown as a list of its entries, unless these cannot be read. -/
theorem perform_answer_list (now : Instant) (domain : String) {c : SlashCommand}
    (hsupported : c.isSupported = true) (hcommand : c.command = SlashName.list.text)
    (s : Surroundings)
    (hquiet : ∀ e, (s.perform (Rotation.entries c.channelName)).1 = .error e →
      e.isConflict = false) :
    s.perform (answer now domain c) =
      ((s.perform (Rotation.entries c.channelName)).1.map (listText domain c.channelName),
        (s.perform (Rotation.entries c.channelName)).2) := by
  have hname : SlashName.ofText? c.command = some .list := by rw [hcommand]; decide
  rw [answer, hsupported, hname]
  dsimp only [Bool.not_true]
  rw [if_neg (by decide), Surroundings.perform_tryCatch, carryOut,
    Surroundings.perform_bind_pure]
  generalize s.perform (Rotation.entries c.channelName) = run at hquiet ⊢
  obtain ⟨result, s'⟩ := run
  cases result with
  | ok entries => rfl
  | error e =>
      dsimp only [Except.map]
      rw [if_neg (by simp [hquiet e rfl])]
      rfl

/-- A signed request to show the tokens is answered with the list of the name that the channel
has now. -/
theorem perform_show {secret : String} (customDomain : Option String) {now : Instant}
    {r : Request} {conversation : Conversation} {s : Surroundings}
    (hsigned : signed secret now r = true)
    (hcommand : (SlashForm.ofBody r.body).command = SlashName.list.text)
    (hconversation : (s.chat.conversation (SlashForm.ofBody r.body).channelId).1 =
      .ok (some conversation))
    (hsupported : (conversation.isChannel || conversation.isGroup) = true)
    (hquiet : ∀ e, ((lookedUp s (SlashForm.ofBody r.body)).perform
      (Rotation.entries conversation.name)).1 = .error e → e.isConflict = false) :
    s.perform (handle secret customDomain now r) =
      (((lookedUp s (SlashForm.ofBody r.body)).perform (Rotation.entries conversation.name)).1.map
          fun entries =>
            inChannel (listText (domain customDomain r.headers) conversation.name entries),
        ((lookedUp s (SlashForm.ofBody r.body)).perform
          (Rotation.entries conversation.name)).2) := by
  rw [perform_handle_of_signed secret customDomain now r hsigned, hconversation]
  dsimp only
  rw [perform_answer_list now (domain customDomain r.headers)
    (c := (SlashForm.ofBody r.body).described (some conversation)) hsupported hcommand _ hquiet]
  dsimp only [SlashForm.described]
  cases ((lookedUp s (SlashForm.ofBody r.body)).perform (Rotation.entries conversation.name)).1 <;>
    rfl

/-- On a ledger that agrees with the events, a live token is accepted for the channel that it
was issued to. -/
theorem exists_issued_of_mem {s : Surroundings} {l : Ledger} {events : List Event}
    (hstore : s.store = .ledger .plain l) (htells : l.Tells events) {name token : String}
    (hlive : ∃ c ∈ under name l.records, c.token = token) :
    ∃ id, (s.perform (Rotation.verify name token)).1 = .ok (.matched id name) ∧
      Event.last? name token events = some (.issued id name token) := by
  rcases Surroundings.perform_verify hstore name token with
    ⟨hnone, -⟩ | ⟨c, hc, htoken, hverdict⟩ | ⟨-, hother, -⟩
  · obtain ⟨c, hc, -⟩ := hlive
    rw [hnone] at hc
    exact absurd hc List.not_mem_nil
  · obtain ⟨hmem, hname⟩ := mem_under.1 hc
    exact ⟨c.channelId, hverdict, (htells _ _ _).2 ⟨c, hmem, rfl, hname, htoken⟩⟩
  · obtain ⟨c, hc, htoken⟩ := hlive
    exact absurd htoken (hother c hc)

/-- On a ledger, a request to show the tokens leaves the ledger as it is.  If it is answered, the
list has the tokens of the records of the name. -/
theorem shown_of_ledger {secret : String} {customDomain : Option String} {now : Instant}
    {r : Request} {conversation : Conversation} {s : Surroundings} {l : Ledger}
    (hstore : s.store = .ledger .plain l) (hsigned : signed secret now r = true)
    (hcommand : (SlashForm.ofBody r.body).command = SlashName.list.text)
    (hconversation : (s.chat.conversation (SlashForm.ofBody r.body).channelId).1 =
      .ok (some conversation))
    (hsupported : (conversation.isChannel || conversation.isGroup) = true) :
    let result := s.perform (handle secret customDomain now r)
    result.2.store = .ledger .plain l ∧
      ∀ response, result.1 = .ok response → ∃ entries : List Entry,
        response = inChannel (listText (domain customDomain r.headers) conversation.name entries) ∧
        ∀ token, (∃ e ∈ entries, e.token = token) ↔
          ∃ c ∈ under conversation.name l.records, c.token = token := by
  intro result
  obtain ⟨sorted, hperm, hentries⟩ := Surroundings.perform_entries
    (s := lookedUp s (SlashForm.ofBody r.body)) hstore conversation.name
  have hshow : result = _ :=
    perform_show customDomain hsigned hcommand hconversation hsupported fun e he => by
      rw [hentries] at he
      exact Credential.isConflict_of_entries he
  rw [hentries] at hshow
  refine ⟨?_, fun response hresponse => ?_⟩
  · rw [hshow]
    exact Surroundings.store_answer_query hstore conversation.name
  · rw [hshow] at hresponse
    cases hread : sorted.mapM Credential.entry with
    | error e =>
        rw [hread] at hresponse
        exact absurd hresponse (by simp [Except.map])
    | ok entries =>
        rw [hread] at hresponse
        refine ⟨entries, (Except.ok.inj hresponse).symm, fun token => ?_⟩
        rw [← List.mem_map, Credential.tokens_of_entries hread, List.mem_map]
        exact ⟨fun ⟨c, hc, h⟩ => ⟨c, hperm.mem_iff.1 hc, h⟩,
          fun ⟨c, hc, h⟩ => ⟨c, hperm.mem_iff.2 hc, h⟩⟩

theorem mem_of_last? {name token : String} {events : List Event} {e : Event}
    (h : Event.last? name token events = some e) : e ∈ events :=
  (List.mem_filter.1 (List.mem_of_getLast? h)).1

/-- What a channel is shown, after any visits, with any script of tokens, in whatever state the
chat service was each time and whatever it says of the channels now.

The reply lists the live tokens of the name that the channel has now, all of them and no
others.  Each of them is accepted under this name, for the channel that its last issue was made
to.  So if no other channel was ever issued a token under this name, all that is shown posts to
the channel that asked. -/
theorem shown_tokens (tokens : List (Option String)) (visits : List Visit) (chat : Chat)
    (secret : String) (customDomain : Option String) (now : Instant) (r : Request)
    (conversation : Conversation) (response : Response)
    (hsigned : signed secret now r = true)
    (hcommand : (SlashForm.ofBody r.body).command = SlashName.list.text)
    (hconversation : (chat.conversation (SlashForm.ofBody r.body).channelId).1 =
      .ok (some conversation))
    (hsupported : (conversation.isChannel || conversation.isGroup) = true)
    (hresponse : (Surroundings.perform (handle secret customDomain now r)
      { (Surroundings.fresh tokens).visited visits with chat := chat }).1 = .ok response) :
    let caller := (SlashForm.ofBody r.body).channelId
    let name := conversation.name
    let events := (Surroundings.fresh tokens).events visits
    let after := (Surroundings.perform (handle secret customDomain now r)
      { (Surroundings.fresh tokens).visited visits with chat := chat }).2
    ∃ entries : List Entry,
      response = inChannel (listText (domain customDomain r.headers) name entries) ∧
      (∀ token, (∃ e ∈ entries, e.token = token) ↔ Event.Live name token events) ∧
      (∀ e ∈ entries, ∃ id,
        (after.perform (Rotation.verify name e.token)).1 = .ok (.matched id name) ∧
        Event.last? name e.token events = some (.issued id name e.token)) ∧
      ((∀ id token, Event.issued id name token ∈ events → id = caller) →
        ∀ e ∈ entries,
          (after.perform (Rotation.verify name e.token)).1 = .ok (.matched caller name)) := by
  intro caller name events after
  obtain ⟨l, hstore, -, htells⟩ := Surroundings.tells_visited (s := Surroundings.fresh tokens)
    rfl Ledger.distinct_empty Ledger.tells_empty visits
  rw [List.nil_append] at htells
  obtain ⟨hafter, hanswered⟩ := shown_of_ledger
    (s := { (Surroundings.fresh tokens).visited visits with chat := chat })
    hstore hsigned hcommand hconversation hsupported
  obtain ⟨entries, hlist, hshown⟩ := hanswered response hresponse
  have hissued : ∀ e ∈ entries, ∃ id,
      (after.perform (Rotation.verify name e.token)).1 = .ok (.matched id name) ∧
      Event.last? name e.token events = some (.issued id name e.token) :=
    fun e he => exists_issued_of_mem hafter htells ((hshown e.token).1 ⟨e, he, rfl⟩)
  refine ⟨entries, hlist, fun token => ?_, hissued, ?_⟩
  · rw [hshown, htells.live_iff name token]
  · intro hown e he
    obtain ⟨id, hverdict, hlast⟩ := hissued e he
    rw [hverdict, hown id e.token (mem_of_last? hlast)]

/-! ### A name that passed to another channel -/

/-- The first token of `ci`, issued while the name was that of `C1`. -/
def issuedEarlier : List Visit :=
  [⟨.issue .epoch "C1" "ci", .directory ⟨[⟨"C1", "ci", false⟩], none, []⟩⟩]

/-- Now the name is that of `C2`. -/
def renamed : Chat :=
  .directory ⟨[⟨"C1", "ci-old", false⟩, ⟨"C2", "ci", false⟩], none, []⟩

/-- A signed request of `C2` to show the tokens. -/
def showRequest : Request where
  method := "POST"
  target := "/slash/"
  headers :=
    [⟨"x-slack-request-timestamp", Utf8.encode "0"⟩,
      ⟨"x-slack-signature", Utf8.encode
        "v0=7716b9d75dd005116514cced9daa3cfef0a9427dc82c98dbd981e036f161e3ed"⟩]
  body := Utf8.encode "command=%2Fhookrelay-show&channel_id=C2"

/-- The surroundings that `C2` finds. -/
def inherited : Surroundings :=
  { (Surroundings.fresh [some "a"]).visited issuedEarlier with chat := renamed }

theorem signed_showRequest : signed "s" .epoch showRequest = true := by
  decide +kernel

/-- What the request says, and what it finds. -/
theorem read_showRequest :
    SlashForm.ofBody showRequest.body = ⟨"/hookrelay-show", "C2", "", ""⟩ ∧
      ((lookedUp inherited (SlashForm.ofBody showRequest.body)).perform
        (Rotation.entries "ci")).1 = .ok [⟨"a", 0, .epoch⟩] ∧
      (inherited.chat.conversation (SlashForm.ofBody showRequest.body).channelId).1 =
        .ok (some ⟨"C2", "ci", true, false⟩) ∧
      (Surroundings.fresh [some "a"]).events issuedEarlier = [.issued "C1" "ci" "a"] := by
  decide +kernel

theorem body_showRequest :
    SlashForm.ofBody showRequest.body = ⟨"/hookrelay-show", "C2", "", ""⟩ :=
  read_showRequest.1

theorem entries_showRequest :
    ((lookedUp inherited (SlashForm.ofBody showRequest.body)).perform
      (Rotation.entries "ci")).1 = .ok [⟨"a", 0, .epoch⟩] :=
  read_showRequest.2.1

theorem conversation_showRequest :
    (inherited.chat.conversation (SlashForm.ofBody showRequest.body).channelId).1 =
      .ok (some ⟨"C2", "ci", true, false⟩) :=
  read_showRequest.2.2.1

theorem events_issuedEarlier :
    (Surroundings.fresh [some "a"]).events issuedEarlier = [.issued "C1" "ci" "a"] :=
  read_showRequest.2.2.2

theorem perform_showRequest :
    (inherited.perform (handle "s" none .epoch showRequest)).1 =
      .ok (inChannel (listText (domain none showRequest.headers) "ci" [⟨"a", 0, .epoch⟩])) := by
  rw [perform_show none signed_showRequest (by rw [body_showRequest]; decide)
    conversation_showRequest rfl fun e he => by
      rw [entries_showRequest] at he
      exact absurd he (by simp)]
  dsimp only
  rw [entries_showRequest]
  rfl

theorem verify_showRequest :
    ((inherited.perform (handle "s" none .epoch showRequest)).2.perform
      (Rotation.verify "ci" "a")).1 = .ok (.matched "C1" "ci") := by
  rw [perform_handle_of_signed _ _ _ _ signed_showRequest, body_showRequest]
  decide +kernel

/-- Not all that a channel is shown posts to this channel: `C2` is shown the token that `C1` was
issued under the name that is now that of `C2`, and it is accepted for `C1`. -/
theorem not_confined :
    ¬ ∀ (tokens : List (Option String)) (visits : List Visit) (chat : Chat) (secret : String)
      (customDomain : Option String) (now : Instant) (r : Request) (conversation : Conversation)
      (entries : List Entry),
      signed secret now r = true →
      (SlashForm.ofBody r.body).command = SlashName.list.text →
      (chat.conversation (SlashForm.ofBody r.body).channelId).1 = .ok (some conversation) →
      (conversation.isChannel || conversation.isGroup) = true →
      (Surroundings.perform (handle secret customDomain now r)
        { (Surroundings.fresh tokens).visited visits with chat := chat }).1 =
          .ok (inChannel
            (listText (domain customDomain r.headers) conversation.name entries)) →
      ∀ e ∈ entries,
        (Surroundings.perform (Rotation.verify conversation.name e.token)
          (Surroundings.perform (handle secret customDomain now r)
            { (Surroundings.fresh tokens).visited visits with chat := chat }).2).1 =
          .ok (.matched (SlashForm.ofBody r.body).channelId conversation.name) := by
  intro h
  have hown := h [some "a"] issuedEarlier renamed "s" none .epoch showRequest
    ⟨"C2", "ci", true, false⟩ [⟨"a", 0, .epoch⟩] signed_showRequest
    (by rw [body_showRequest]; decide) conversation_showRequest rfl perform_showRequest
    _ (List.mem_singleton.2 rfl)
  have hother := verify_showRequest.symm.trans hown
  rw [body_showRequest] at hother
  exact absurd hother (by simp)

/-- What `C2` is shown: the token that was last issued to `C1`. -/
theorem shown_after_renaming :
    ∃ entries : List Entry,
      (inherited.perform (handle "s" none .epoch showRequest)).1 = .ok (inChannel
        (listText (domain none showRequest.headers) "ci" entries)) ∧
      ∃ e ∈ entries, e.token = "a" ∧
        Event.last? "ci" e.token ((Surroundings.fresh [some "a"]).events issuedEarlier) =
          some (.issued "C1" "ci" "a") := by
  obtain ⟨entries, hresponse, hlive, hissued, -⟩ := shown_tokens [some "a"] issuedEarlier renamed
    "s" none .epoch showRequest ⟨"C2", "ci", true, false⟩ _ signed_showRequest
    (by rw [body_showRequest]; decide) conversation_showRequest rfl perform_showRequest
  rw [events_issuedEarlier] at hlive hissued
  obtain ⟨e, he, htoken⟩ := (hlive "a").2 ⟨"C1", rfl⟩
  refine ⟨entries, ?_, e, he, htoken, ?_⟩
  · rw [perform_showRequest, hresponse]
  · rw [events_issuedEarlier, htoken]
    rfl

end Slash

end ChannelRelay
