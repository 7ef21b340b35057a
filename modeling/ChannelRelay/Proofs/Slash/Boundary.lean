import ChannelRelay.Proofs.Visits.Effect
import ChannelRelay.Proofs.Visits.Run
import ChannelRelay.Proofs.Webhook.Fate

/-!
# What may change the stored records

The records change only on behalf of a signed slash command from a channel that the relay can
see, and then by one step that fits the command (`Slash.Change`).  The proof follows a request
from the inside out: what a command does (`Slash.keeps_carryOut`), what is made of its failure
(`Slash.records_answer`), what is checked before it (`Slash.records_handle`), and which requests
come that far (`Server.records_respond`, `Server.records_serve`).
-/

namespace ChannelRelay

namespace Slash

theorem body_inChannel (text : String) :
    (inChannel text).body =
      Utf8.encode
        ("\x7b\"text\":" ++ Json.quoted text ++ ",\"response_type\":\"in_channel\"\x7d") := by
  rw [inChannel, Response.json, Response.typed]

/-- Whether characters stand in a quoted text as they are. -/
def isPlain (p : List Char) : Bool := p.all fun c => Json.escaped c == [c]

theorem flatMap_escaped {p : List Char} (hp : isPlain p = true) :
    p.flatMap Json.escaped = p := by
  refine (List.flatMap_congr fun c hc => ?_).trans (List.flatMap_singleton' p)
  exact beq_iff_eq.1 (List.all_eq_true.1 hp c hc)

theorem isPlain_of_subset {p q : List Char} (hq : isPlain q = true) (hsub : p ⊆ q) :
    isPlain p = true :=
  List.all_eq_true.2 fun c hc => List.all_eq_true.1 hq c (hsub hc)

/-- Texts that open differently are told apart in a response, if the openings need no
escapes. -/
theorem body_ne_of_opening {text other : String} {p q s t : List Char}
    (htext : text.toList = p ++ s) (hother : other.toList = q ++ t)
    (hp : isPlain p = true) (hq : isPlain q = true)
    (hlength : p.length = q.length) (hne : p ≠ q) :
    (inChannel text).body ≠ (inChannel other).body := by
  intro h
  rw [body_inChannel, body_inChannel] at h
  have hchars := congrArg String.toList (Utf8.encode_inj h)
  simp only [Json.quoted, htext, hother, List.flatMap_append, flatMap_escaped hp,
    flatMap_escaped hq, String.toList_append, String.toList_ofList, List.append_assoc,
    List.append_cancel_left_eq, List.cons_append, List.cons.injEq, true_and] at hchars
  exact hne (List.append_inj_left hchars hlength)

/-- The response that a text is given in is not the request to try again. -/
def IsFinal (text : String) : Prop :=
  (inChannel text).body ≠ (inChannel tryAgainText).body

/-- What a command may do to the stored records. -/
inductive Change (c : SlashCommand) (before after : List Credential) : SlashName → Prop where
  | generated {d : Credential} (hid : d.channelId = c.channelId)
      (hname : d.channelName = c.channelName) (h : after.Perm (d :: before)) :
      Change c before after .generate
  | regenerated {d : Credential} (hid : d.channelId = c.channelId)
      (hname : d.channelName = c.channelName) (h : after.Perm (d :: before)) :
      Change c before after .regenerate
  | revoked {d : Credential} (hname : d.channelName = c.channelName)
      (htoken : d.token = Blank.trim c.text) (h : before.Perm (d :: after)) :
      Change c before after .revoke
  | revokedRenamed {d : Credential} (hwords : Blank.words c.text = [d.channelName, d.token])
      (hother : d.channelId ≠ c.channelId) (h : before.Perm (d :: after)) :
      Change c before after .revokeRenamed

/-- What tells the request to try again from other texts. -/
def tryAgainOpening : String := "Another token operation for this channel f"

theorem exists_tryAgainText : ∃ rest, tryAgainText = tryAgainOpening ++ rest :=
  ⟨"inished at the same time. Check with `/hookrelay-show` and try again.\n", rfl⟩

theorem isPlain_tryAgainOpening : isPlain tryAgainOpening.toList = true := by
  decide

theorem isFinal_of_opening {p : String} (hp : isPlain p.toList = true)
    (hlength : p.toList.length ≤ tryAgainOpening.toList.length)
    (hne : p.toList ≠ tryAgainOpening.toList.take p.toList.length) (s : String) :
    IsFinal (p ++ s) := by
  obtain ⟨rest, hrest⟩ := exists_tryAgainText
  have hother : tryAgainText.toList = tryAgainOpening.toList.take p.toList.length ++
      (tryAgainOpening.toList.drop p.toList.length ++ rest.toList) := by
    rw [hrest, String.toList_append, ← List.append_assoc, List.take_append_drop]
  refine body_ne_of_opening String.toList_append hother hp ?_ ?_ hne
  · exact isPlain_of_subset isPlain_tryAgainOpening (List.take_subset _ _)
  · rw [List.length_take, Nat.min_eq_left hlength]

section Texts

variable (domain name token : String)

theorem isFinal_issueText : IsFinal (issueText domain name ⟨token, true⟩) := by
  rw [issueText, if_pos rfl, String.append_assoc, String.append_assoc, String.append_assoc]
  exact isFinal_of_opening (p := "Token generated: ") (by decide) (by decide) (by decide) _

theorem isFinal_addedText : IsFinal (addedText domain name (.generated token)) := by
  change IsFinal (_ ++ _ ++ _)
  rw [String.append_assoc]
  exact isFinal_of_opening (p := "Another token generated for this channel: ") (by decide)
    (by decide) (by decide) _

theorem isFinal_revokedText : IsFinal (revokedText name token .revoked) := by
  change IsFinal (_ ++ _ ++ _ ++ _ ++ _)
  rw [String.append_assoc, String.append_assoc, String.append_assoc]
  exact isFinal_of_opening (p := "Token revoked: channel_name=") (by decide) (by decide)
    (by decide) _

theorem isFinal_revokedRenamedText (channelId : String) :
    IsFinal (revokedRenamedText channelId name token .revoked) := by
  change IsFinal (_ ++ _ ++ _ ++ _ ++ _)
  rw [String.append_assoc, String.append_assoc, String.append_assoc]
  exact isFinal_of_opening (p := "Token revoked: old_channel_name=") (by decide) (by decide)
    (by decide) _

end Texts

section Commands

variable (now : Instant) (domain : String) (c : SlashCommand)

/-- A run of a command leaves the records as they are, or it changes them by its step and says
so. -/
def Keeps (name : SlashName) (s : Surroundings)
    (result : Except RelayError String × Surroundings) : Prop :=
  result.2.store.records = s.store.records ∨
    ∃ text, result.1 = .ok text ∧ IsFinal text ∧
      Change c s.store.records result.2.store.records name

variable {c} in
/-- A command keeps its word if the texts about its events do. -/
theorem keeps_of_reports {α : Type} {r : Errand} {x : Operation α} {wrap : α → Outcome}
    {text : α → String} {name : SlashName} (hop : r.operation = wrap <$> x)
    (hname : r.name? ≠ none) (s : Surroundings)
    (hreports : ∀ a event after, r.event? (.ok (wrap a)) = some event →
      r.Effect s.store.records (some event) after →
        IsFinal (text a) ∧ Change c s.store.records after name) :
    Keeps c name s (s.perform (x >>= fun a => pure (text a))) := by
  have heffect := Errand.effect_of_operation hop hname s
  rw [Surroundings.perform_bind_pure]
  cases hevent : r.event? ((s.perform x).1.map wrap) with
  | none =>
      rw [hevent] at heffect
      exact Or.inl heffect.eq_of_none
  | some event =>
      cases hresult : (s.perform x).1 with
      | error e =>
          -- An operation that fails reports no event.
          rw [hresult] at hevent
          exact absurd ((Errand.event?_error r e).symm.trans hevent) (by simp)
      | ok a =>
          rw [hevent] at heffect
          rw [hresult] at hevent
          exact Or.inr ⟨text a, rfl, hreports a event _ hevent heffect⟩

theorem keeps_list (s : Surroundings) :
    Keeps c .list s (s.perform (carryOut now domain c .list)) :=
  keeps_of_reports (r := .entries c.channelName) rfl (by simp [Errand.name?]) s
    fun _ _ _ hevent => absurd hevent (by simp [Errand.event?])

theorem keeps_generate (s : Surroundings) :
    Keeps c .generate s (s.perform (carryOut now domain c .generate)) := by
  refine keeps_of_reports (r := .issue now c.channelId c.channelName) rfl
    (by simp [Errand.name?]) s fun issue event after hevent heffect => ?_
  obtain ⟨token, isNew⟩ := issue
  cases isNew with
  | false => exact absurd hevent (by simp [Errand.event?])
  | true =>
      obtain rfl := Option.some.inj hevent
      cases heffect with
      | issued hid hname _ hperm =>
          exact ⟨isFinal_issueText domain c.channelName token, .generated hid hname hperm⟩

theorem keeps_regenerate (s : Surroundings) :
    Keeps c .regenerate s (s.perform (carryOut now domain c .regenerate)) := by
  refine keeps_of_reports (r := .add now c.channelId c.channelName) rfl
    (by simp [Errand.name?]) s fun added event after hevent heffect => ?_
  cases added with
  | generated token =>
      obtain rfl := Option.some.inj hevent
      cases heffect with
      | issued hid hname _ hperm =>
          exact ⟨isFinal_addedText domain c.channelName token, .regenerated hid hname hperm⟩
  | _ => exact absurd hevent (by simp [Errand.event?])

theorem keeps_revoke (s : Surroundings) :
    Keeps c .revoke s (s.perform (carryOut now domain c .revoke)) := by
  refine keeps_of_reports (r := .revoke c.channelName (Blank.trim c.text)) rfl
    (by simp [Errand.name?]) s fun outcome event after hevent heffect => ?_
  cases outcome with
  | revoked =>
      obtain rfl := Option.some.inj hevent
      cases heffect with
      | removed hname htoken _ hperm =>
          exact ⟨isFinal_revokedText _ _, .revoked hname htoken hperm⟩
  | notFound => exact absurd hevent (by simp [Errand.event?])

theorem keeps_revokeRenamed (s : Surroundings) :
    Keeps c .revokeRenamed s (s.perform (carryOut now domain c .revokeRenamed)) := by
  rw [carryOut]
  split
  · rename_i oldName token hwords
    refine keeps_of_reports (r := .revokeRenamed c.channelId oldName token) rfl
      (by simp [Errand.name?]) s fun outcome event after hevent heffect => ?_
    cases outcome with
    | revoked =>
        obtain rfl := Option.some.inj hevent
        cases heffect with
        | removed hname htoken hmay hperm =>
            obtain ⟨past, found, -, -, -, hother⟩ := hmay
            subst hname htoken
            exact ⟨isFinal_revokedRenamedText _ _ c.channelId,
              .revokedRenamed hwords hother hperm⟩
    | _ => exact absurd hevent (by simp [Errand.event?])
  · exact Or.inl rfl

theorem keeps_carryOut (name : SlashName) (s : Surroundings) :
    Keeps c name s (s.perform (carryOut now domain c name)) := by
  cases name with
  | list => exact keeps_list now domain c s
  | generate => exact keeps_generate now domain c s
  | regenerate => exact keeps_regenerate now domain c s
  | revoke => exact keeps_revoke now domain c s
  | revokeRenamed => exact keeps_revokeRenamed now domain c s

/-- An answer leaves the records as they are, unless a supported channel gave a command that
was carried out. -/
theorem records_answer (s : Surroundings) :
    (s.perform (answer now domain c)).2.store.records = s.store.records ∨
      ∃ name text, c.isSupported = true ∧ c.command = name.text ∧
        (s.perform (answer now domain c)).1 = .ok text ∧ IsFinal text ∧
        Change c s.store.records (s.perform (answer now domain c)).2.store.records name := by
  rw [answer]
  split
  · exact Or.inl rfl
  · rename_i hsupported
    have hsupported : c.isSupported = true := by simpa using hsupported
    split
    · exact Or.inl rfl
    · rename_i name hname
      have hcommand : c.command = name.text := by
        have := List.find?_some hname
        exact (by simpa using this : name.text = c.command).symm
      rw [Surroundings.perform_tryCatch]
      have hkeeps := keeps_carryOut now domain c name s
      generalize s.perform (carryOut now domain c name) = run at hkeeps ⊢
      obtain ⟨result, s'⟩ := run
      cases result with
      | ok text =>
          rcases hkeeps with hsame | ⟨text', hok, hfinal, hchange⟩
          · exact Or.inl hsame
          · obtain rfl := Except.ok.inj hok
            exact Or.inr ⟨name, text, hsupported, hcommand, rfl, hfinal, hchange⟩
      | error e =>
          -- Whether a failure is passed on or told as a conflict, it has written nothing.
          left
          rcases hkeeps with hsame | ⟨text', hok, -⟩
          · dsimp only
            split
            · exact hsame
            · exact hsame
          · exact absurd hok (by simp)

end Commands

section Requests

variable (secret : String) (customDomain : Option String) (now : Instant) (r : Request)

/-- Whether a request carries a signature that is right and fresh. -/
def signed : Bool :=
  Signature.verify secret r.headers r.body (Int64.ofInt now.seconds)

/-- Without a signature nothing is done. -/
theorem perform_handle_of_unsigned (hsigned : signed secret now r = false) (s : Surroundings) :
    s.perform (handle secret customDomain now r) = (.error .invalidSignature, s) := by
  unfold signed at hsigned
  rw [handle, hsigned]
  rfl

/-- The surroundings once the conversation of a command is looked up and the command is
counted. -/
def lookedUp (s : Surroundings) (form : SlashForm) : Surroundings :=
  { s with
    chat := (s.chat.conversation form.channelId).2
    metrics := s.metrics.count .commands (Metrics.commandValue form.command) }

/-- What is done for a signed request after its conversation is looked up. -/
theorem perform_handle_of_signed (hsigned : signed secret now r = true) (s : Surroundings) :
    s.perform (handle secret customDomain now r) =
      match (s.chat.conversation (SlashForm.ofBody r.body).channelId).1 with
      | .error e => (.error (.slack e),
          { s with
            chat := (s.chat.conversation (SlashForm.ofBody r.body).channelId).2 })
      | .ok conversation =>
        let text := (lookedUp s (SlashForm.ofBody r.body)).perform
          (answer now (Slash.domain customDomain r.headers)
            ((SlashForm.ofBody r.body).described conversation))
        (text.1.map inChannel, text.2) := by
  unfold signed at hsigned
  rw [handle, hsigned, if_neg (by decide), Surroundings.perform_bind, SlashForm.resolve,
    Surroundings.perform_bind_pure, Surroundings.perform_conversation]
  cases (s.chat.conversation (SlashForm.ofBody r.body).channelId).1 with
  | error e => rfl
  | ok conversation =>
      dsimp only [Except.mapError, Except.map]
      rw [Surroundings.perform_bind, Surroundings.perform_count]
      dsimp only
      rw [Surroundings.perform_bind_pure]
      cases conversation <;> rfl

/-- Who may change the records, and how: a signed command from a channel that can be seen, by
its step. -/
theorem records_handle (s : Surroundings) :
    let form := SlashForm.ofBody r.body
    let result := s.perform (handle secret customDomain now r)
    result.2.store.records = s.store.records ∨
      signed secret now r = true ∧ ∃ conversation name text,
        (s.chat.conversation form.channelId).1 = .ok (some conversation) ∧
        (conversation.isChannel || conversation.isGroup) = true ∧ form.command = name.text ∧
        result.1 = .ok (inChannel text) ∧ IsFinal text ∧
        Change (form.described (some conversation)) s.store.records
          result.2.store.records name := by
  intro form result
  cases hsigned : signed secret now r with
  | false =>
      left
      rw [show result = _ from perform_handle_of_unsigned secret customDomain now r hsigned s]
  | true =>
      have hrun := perform_handle_of_signed secret customDomain now r hsigned s
      change result = _ at hrun
      rw [hrun]
      cases hconversation : (s.chat.conversation form.channelId).1 with
      | error e => exact Or.inl rfl
      | ok conversation =>
          dsimp only
          rcases records_answer now (Slash.domain customDomain r.headers)
            (form.described conversation) _ with
              hsame | ⟨name, text, hsupported, hcommand, hok, hfinal, hchange⟩
          · exact Or.inl hsame
          · right
            cases conversation with
            | none => exact absurd hsupported (by simp [SlashForm.described])
            | some conversation =>
                refine ⟨rfl, conversation, name, text, rfl, hsupported, hcommand, ?_, hfinal,
                  hchange⟩
                exact congrArg (Except.map inChannel) hok

end Requests

end Slash

namespace Server

variable (srv : Server) (now : Instant) (r : Request) (s : Surroundings)

theorem path_of_slash {path : String} (h : Route.ofPath? path = some .slash) :
    path = "/slash/" := by
  unfold Route.ofPath? at h
  split at h
  · exact absurd h (by simp)
  · split at h
    · exact absurd h (by simp)
    · split at h
      · assumption
      · split at h <;> exact absurd h (by simp)

/-- A slash command of the right form is handled, and its failures are answered. -/
theorem run_respond_of_slash (hmethod : r.method = "POST") (hpath : r.path = "/slash/")
    (hbody : r.body.length ≤ maxBody) :
    (srv.respond now r).run Surroundings.answer s =
      (settled (Slash.handle srv.signingSecret srv.customDomain now r)).run
        Surroundings.answer s := by
  have hroute : Route.ofPath? r.path = some .slash := by rw [hpath]; decide
  rw [respond, hroute]
  dsimp only
  rw [if_neg (by rw [hmethod]; decide), if_neg (by simp [Nat.not_lt.2 hbody]), hmethod,
    Dialogue.run_bind]
  rfl

/-- Nothing but a slash command gets as far as to change the records. -/
theorem records_respond :
    ((srv.respond now r).run Surroundings.answer s).2.store.records = s.store.records ∨
      r.method = "POST" ∧ r.path = "/slash/" ∧ r.body.length ≤ maxBody := by
  rw [respond]
  split
  · exact Or.inl rfl
  · rename_i route hroute
    split
    · exact Or.inl rfl
    · rename_i hmethod
      split
      · exact Or.inl rfl
      · rename_i hbody
        rw [Dialogue.run_bind]
        cases route with
        | health => exact Or.inl rfl
        | metrics => exact Or.inl rfl
        | webhook =>
            obtain ⟨status, outcome, post, -, hends⟩ := Webhook.exists_fate r s
            exact Or.inl hends.records_eq
        | slash =>
            right
            refine ⟨?_, path_of_slash hroute, ?_⟩
            · simpa [Route.methods] using hmethod
            · simpa [Route.readsBody] using hbody

theorem finish_status (fresh : List UInt8) (r : Request) (response : Response) :
    (finish fresh r response).status = response.status := rfl

theorem finish_body (fresh : List UInt8) (r : Request) (response : Response) :
    (finish fresh r response).body = response.body := rfl

/-- In time, a request is answered as if there were no deadline. -/
theorem serve_eq (fresh : List UInt8)
    (hintime : ((srv.respond now r).runUntil Surroundings.answerInTime s).1.isSome) :
    srv.serve now fresh r s =
      (finish fresh r ((srv.respond now r).run Surroundings.answer s).1,
        ((srv.respond now r).run Surroundings.answer s).2) := by
  obtain ⟨response, hresponse⟩ := Option.isSome_iff_exists.1 hintime
  rw [serve, Dialogue.run_of_runUntil Surroundings.answerInTime_agrees hresponse]
  dsimp only
  rw [hresponse]
  rfl

theorem serve_snd (fresh : List UInt8)
    (hintime : ((srv.respond now r).runUntil Surroundings.answerInTime s).1.isSome) :
    (srv.serve now fresh r s).2 = ((srv.respond now r).run Surroundings.answer s).2 := by
  rw [serve_eq srv now r s fresh hintime]

/-- In time, a slash command of the right form is answered with what its handler makes of
it. -/
theorem serve_slash (fresh : List UInt8)
    (hintime : ((srv.respond now r).runUntil Surroundings.answerInTime s).1.isSome)
    (hmethod : r.method = "POST") (hpath : r.path = "/slash/") (hbody : r.body.length ≤ maxBody) :
    srv.serve now fresh r s =
      match s.perform (Slash.handle srv.signingSecret srv.customDomain now r) with
      | (.ok response, s') => (finish fresh r response, s')
      | (.error e, s') => (finish fresh r e.response, s') := by
  rw [serve_eq srv now r s fresh hintime, run_respond_of_slash srv now r s hmethod hpath hbody,
    run_settled]
  generalize s.perform (Slash.handle srv.signingSecret srv.customDomain now r) = run
  obtain ⟨result, s'⟩ := run
  cases result with
  | ok response => rfl
  | error e => rfl

/-- A refused signature is the answer, and nothing else comes of the request. -/
theorem serve_unsigned (fresh : List UInt8)
    (hintime : ((srv.respond now r).runUntil Surroundings.answerInTime s).1.isSome)
    (hmethod : r.method = "POST") (hpath : r.path = "/slash/") (hbody : r.body.length ≤ maxBody)
    (hsigned : Slash.signed srv.signingSecret now r = false) :
    (srv.serve now fresh r s).1.status = 401 ∧ (srv.serve now fresh r s).2 = s := by
  rw [serve_slash srv now r s fresh hintime hmethod hpath hbody,
    Slash.perform_handle_of_unsigned _ srv.customDomain now r hsigned s]
  exact ⟨rfl, rfl⟩

/-- The records are what they were, or a signed command changed them and the answer, a success,
says what was done. -/
theorem records_serve (fresh : List UInt8)
    (hintime : ((srv.respond now r).runUntil Surroundings.answerInTime s).1.isSome) :
    let form := SlashForm.ofBody r.body
    let result := srv.serve now fresh r s
    result.2.store.records = s.store.records ∨
      (r.method = "POST" ∧ r.path = "/slash/" ∧ r.body.length ≤ maxBody) ∧
      Slash.signed srv.signingSecret now r = true ∧ ∃ conversation name text,
        (s.chat.conversation form.channelId).1 = .ok (some conversation) ∧
        (conversation.isChannel || conversation.isGroup) = true ∧ form.command = name.text ∧
        result.1.status = 200 ∧ result.1.body = (Slash.inChannel text).body ∧
        Slash.IsFinal text ∧
        Slash.Change (form.described (some conversation)) s.store.records
          result.2.store.records name := by
  intro form result
  by_cases hslash : r.method = "POST" ∧ r.path = "/slash/" ∧ r.body.length ≤ maxBody
  · have hserve : result = _ :=
      serve_slash srv now r s fresh hintime hslash.1 hslash.2.1 hslash.2.2
    have hrecords := Slash.records_handle srv.signingSecret srv.customDomain now r s
    dsimp only at hrecords
    generalize s.perform (Slash.handle srv.signingSecret srv.customDomain now r) = run
      at hserve hrecords
    obtain ⟨outcome, s'⟩ := run
    rw [hserve]
    rcases hrecords with hsame |
      ⟨hsigned, conversation, name, text, hseen, hsupported, hcommand, hok, hfinal, hchange⟩
    · left
      cases outcome with
      | ok response => exact hsame
      | error e => exact hsame
    · obtain rfl : outcome = .ok (Slash.inChannel text) := hok
      exact Or.inr ⟨hslash, hsigned, conversation, name, text, hseen, hsupported, hcommand,
        finish_status _ _ _, finish_body _ _ _, hfinal, hchange⟩
  · left
    rw [show result.2 = _ from serve_snd srv now r s fresh hintime]
    exact (records_respond srv now r s).resolve_right hslash

/-- What may change the stored records, for every request, every store in whatever state and
mode, and every chat service, if the deadline is not reached.

1. The records change only on behalf of a slash command that is signed and not too long, from
   a channel that the relay can see, and then by the one step of the command.
2. A slash command that is refused for its signature is answered so, and nothing at all is
   done for it: nothing is asked of the chat service and nothing is counted.
3. Where the answer is no success, or asks to try again, the records are what they were. -/
theorem records_change (fresh : List UInt8)
    (hintime : ((srv.respond now r).runUntil Surroundings.answerInTime s).1.isSome) :
    let form := SlashForm.ofBody r.body
    let result := srv.serve now fresh r s
    (result.2.store.records ≠ s.store.records →
      r.method = "POST" ∧ r.path = "/slash/" ∧ r.body.length ≤ maxBody ∧
      Slash.signed srv.signingSecret now r = true ∧
      ∃ conversation name,
        (s.chat.conversation form.channelId).1 = .ok (some conversation) ∧
        (conversation.isChannel || conversation.isGroup) = true ∧
        form.command = name.text ∧
        Slash.Change (form.described (some conversation)) s.store.records
          result.2.store.records name) ∧
    (r.method = "POST" → r.path = "/slash/" → r.body.length ≤ maxBody →
      Slash.signed srv.signingSecret now r = false →
        result.1.status = 401 ∧ result.2 = s) ∧
    (result.1.status ≠ 200 ∨ result.1.body = (Slash.inChannel Slash.tryAgainText).body →
      result.2.store.records = s.store.records) := by
  intro form result
  have hunsigned : r.method = "POST" → r.path = "/slash/" → r.body.length ≤ maxBody →
      Slash.signed srv.signingSecret now r = false → result.1.status = 401 ∧ result.2 = s :=
    serve_unsigned srv now r s fresh hintime
  rcases records_serve srv now r s fresh hintime with hsame |
    ⟨⟨hmethod, hpath, hbody⟩, hsigned, conversation, name, text, hseen, hsupported, hcommand,
      hstatus, hreply, hfinal, hchange⟩
  · exact ⟨fun hchanged => absurd hsame hchanged, hunsigned, fun _ => hsame⟩
  · refine ⟨fun _ => ?_, hunsigned, ?_⟩
    · exact ⟨hmethod, hpath, hbody, hsigned, conversation, name, hseen, hsupported, hcommand,
        hchange⟩
    · -- The answer to a command that was carried out is a success and says what was done.
      rintro (hfailed | htry)
      · exact absurd hstatus hfailed
      · exact absurd (hreply.symm.trans htry) hfinal

/-- A signed request for the first token of a channel. -/
def issueRequest : Request where
  method := "POST"
  target := "/slash/"
  headers :=
    [⟨"x-slack-request-timestamp", Utf8.encode "0"⟩,
      ⟨"x-slack-signature", Utf8.encode
        "v0=f0003e5d00aac178fe3b054ff6cefaaf4a298acaa99ac8d3ba0bf168937cc55e"⟩]
  body := Utf8.encode "command=%2Fhookrelay-generate&channel_id=C1"

/-- An empty store, one token to come and a directory of one channel. -/
def oneChannel : Surroundings :=
  { Surroundings.fresh [some "a"] with chat := .directory ⟨[⟨"C1", "ci", false⟩], none, []⟩ }

theorem signed_issueRequest : Slash.signed "s" .epoch issueRequest = true := by
  decide +kernel

theorem inTime_issueRequest :
    (((Server.mk "s" none).respond .epoch issueRequest).runUntil Surroundings.answerInTime
      oneChannel).1.isSome :=
  Surroundings.inTime_of_directory ⟨_, rfl⟩

theorem body_issueRequest :
    SlashForm.ofBody issueRequest.body = ⟨"/hookrelay-generate", "C1", "", ""⟩ := by
  decide +kernel

theorem records_issueRequest :
    ((Server.mk "s" none).serve .epoch [] issueRequest oneChannel).2.store.records =
      [⟨"ci", 0, "C1", "a", "1970-01-01T00:00:00.000000000Z"⟩] := by
  rw [serve_snd _ _ _ _ [] inTime_issueRequest,
    run_respond_of_slash _ _ _ _ rfl (by decide) (by decide), run_settled_snd,
    Slash.perform_handle_of_signed _ _ _ _ signed_issueRequest, body_issueRequest]
  decide +kernel

theorem issueRequest_changes :
    ((Server.mk "s" none).serve .epoch [] issueRequest oneChannel).2.store.records ≠
        oneChannel.store.records ∧
      ∃ conversation name,
        (oneChannel.chat.conversation "C1").1 = .ok (some conversation) ∧
        Slash.Change ((SlashForm.ofBody issueRequest.body).described (some conversation))
          oneChannel.store.records
          ((Server.mk "s" none).serve .epoch [] issueRequest oneChannel).2.store.records name := by
  have hchanged : ((Server.mk "s" none).serve .epoch [] issueRequest oneChannel).2.store.records ≠
      oneChannel.store.records := by
    rw [records_issueRequest]
    exact List.cons_ne_nil _ _
  obtain ⟨-, -, -, -, conversation, name, hconversation, -, -, hchange⟩ :=
    (records_change (Server.mk "s" none) .epoch issueRequest oneChannel [] inTime_issueRequest).1
      hchanged
  rw [body_issueRequest] at hconversation
  exact ⟨hchanged, conversation, name, hconversation, hchange⟩

end Server

end ChannelRelay
