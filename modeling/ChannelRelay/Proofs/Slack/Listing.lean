import ChannelRelay.Proofs.Slack.Reply
import ChannelRelay.Slack.Client
import Mathlib.Data.List.Forall2

/-!
# Listing all channels

A listing asks for one page after the other.  Whatever the server answers, there is a last
request: the server `Leads` the listing through pages with a cursor to a step that either
serves a page without one or fails (`exists_leads`).  The listing then has asked for
exactly these pages, each with the cursor of the page before it, and its result is all
channels of the pages in their order or the failure (`listChannels_once`).
-/

namespace ChannelRelay

open Json (Document)

namespace Reply

/-- The field names no further page: it is missing or null, or the metadata in it have no
cursor, or an empty one. -/
def Ending (metadata : Option Document) : Prop :=
  metadata = none ∨ metadata = some .null ∨
    ∃ m cursor, metadata = some m ∧ fields? ["next_cursor"] 0 m = some [cursor] ∧
      (cursor = none ∨ cursor = some (.text (some "")))

/-- The reply names no further page. -/
def NoCursor (d : Document) : Prop :=
  ∃ ok error channels metadata,
    fields? ["ok", "error", "channels", "response_metadata"] 1 d =
        some [ok, error, channels, metadata] ∧ Ending metadata

theorem optional?_text?_eq_empty_iff {cursor : Option Document} :
    optional? text? "" cursor = some "" ↔ cursor = none ∨ cursor = some (.text (some "")) := by
  rw [optional?_text?_eq_some_iff, or_comm, and_iff_left rfl]

/-- Metadata have an empty cursor if it is missing or written so, but not if it is null. -/
theorem cursor?_eq_empty_iff {m : Document} :
    cursor? m = some "" ↔ ∃ cursor, fields? ["next_cursor"] 0 m = some [cursor] ∧
      (cursor = none ∨ cursor = some (.text (some ""))) := by
  rw [cursor?]
  constructor
  · intro h
    obtain ⟨fields, hfields, h⟩ := Option.bind_eq_some_iff.1 h
    split at h
    · rename_i cursor
      exact ⟨cursor, hfields, optional?_text?_eq_empty_iff.1 h⟩
    · exact absurd h (by simp)
  · rintro ⟨cursor, hfields, hcursor⟩
    rw [hfields]
    exact optional?_text?_eq_empty_iff.2 hcursor

theorem ending_iff {metadata : Option Document} {next? : Option String}
    (h : optional? (nullable? cursor?) none metadata = some next?) :
    Ending metadata ↔ next?.getD "" = "" := by
  cases metadata with
  | none =>
      obtain rfl := Option.some.inj h
      simp [Ending]
  | some m =>
      by_cases hnull : m = .null
      · subst hnull
        obtain rfl := Option.some.inj h
        simp [Ending]
      · have hcursor : (cursor? m).map some = some next? := by
          rw [← h]
          cases m <;> first | rfl | exact absurd rfl hnull
        obtain ⟨next, hnext, rfl⟩ := Option.map_eq_some_iff.1 hcursor
        have hempty := cursor?_eq_empty_iff (m := m)
        rw [hnext, Option.some.injEq] at hempty
        rw [Option.getD_some, hempty]
        simp [Ending, hnull]

theorem exists_metadata_of_page? {d : Document} {p : Page} (h : page? d = some p) :
    ∃ ok error channels metadata next?,
      fields? ["ok", "error", "channels", "response_metadata"] 1 d =
          some [ok, error, channels, metadata] ∧
        optional? (nullable? cursor?) none metadata = some next? ∧ p.next = next?.getD "" := by
  unfold page? at h
  obtain ⟨fields, hfields, h⟩ := Option.bind_eq_some_iff.1 h
  split at h
  · rename_i ok error channels metadata
    obtain ⟨a, -, h⟩ := Option.bind_eq_some_iff.1 h
    obtain ⟨b, -, h⟩ := Option.bind_eq_some_iff.1 h
    obtain ⟨c, -, h⟩ := Option.bind_eq_some_iff.1 h
    obtain ⟨next?, hnext, h⟩ := Option.bind_eq_some_iff.1 h
    obtain rfl := Option.some.inj h
    exact ⟨ok, error, channels, metadata, next?, hfields, hnext, rfl⟩
  · exact absurd h (by simp)

/-- The cursor of a page is empty exactly if its reply names no further page. -/
theorem noCursor_iff {d : Document} {p : Page} (h : page? d = some p) :
    NoCursor d ↔ p.next = "" := by
  obtain ⟨ok, error, channels, metadata, next?, hfields, hnext, hp⟩ := exists_metadata_of_page? h
  rw [hp, ← ending_iff hnext, NoCursor, hfields]
  constructor
  -- A reply has only one field of each name, so these are the metadata that were read.
  · rintro ⟨_, _, _, _, hsame, hending⟩
    simp only [Option.some.injEq, List.cons.injEq, and_true] at hsame
    obtain ⟨-, -, -, rfl⟩ := hsame
    exact hending
  · exact fun hending => ⟨ok, error, channels, metadata, rfl, hending⟩

end Reply

namespace ServerStep

/-- The server answers a request for a page with it: success is reported, the whole body is
a document, and the document is a page that is fine. -/
def Serves (step : ServerStep) (d : Document) (p : Reply.Page) : Prop :=
  ∃ status bytes, step = .answer status (.whole bytes) ∧ Status.isSuccess status = true ∧
    Document.ofBytes? bytes = some d ∧ Reply.page? d = some p ∧ p.ok = true

theorem exists_serves {status : Nat} {bytes : List UInt8} {p : Reply.Page}
    (hstatus : Status.isSuccess status = true)
    (hbytes : (Document.ofBytes? bytes).bind Reply.page? = some p) (hok : p.ok = true) :
    ∃ d, (ServerStep.answer status (.whole bytes)).Serves d p := by
  obtain ⟨d, hd, hp⟩ := Option.bind_eq_some_iff.1 hbytes
  exact ⟨d, status, bytes, rfl, hstatus, hd, hp, hok⟩

theorem Serves.noCursor_iff {step : ServerStep} {d : Document} {p : Reply.Page}
    (h : step.Serves d p) : Reply.NoCursor d ↔ p.next = "" := by
  obtain ⟨status, bytes, -, -, -, hp, -⟩ := h
  exact Reply.noCursor_iff hp

/-- The server does not answer a request for a page with it, and why the listing fails then. -/
inductive Fails : ServerStep → SlackError → Prop where
  | closed : Fails .close (.requestFailed .listConversations)
  | hung : Fails .hang (.requestFailed .listConversations)
  | refused {status : Nat} {body : Body} (h : Status.isSuccess status = false) :
      Fails (.answer status body) (.statusReturned .listConversations (Status.text status)
        (match body with
          | .whole bytes => Client.bodyText bytes
          | _ => ""))
  | cut {status : Nat} {body : Body} (h : Status.isSuccess status = true)
      (hcut : ∀ bytes, body ≠ .whole bytes) :
      Fails (.answer status body) (.unexpectedBody .listConversations)
  | undecodable {status : Nat} {bytes : List UInt8} (h : Status.isSuccess status = true)
      (hbytes : (Document.ofBytes? bytes).bind Reply.page? = none) :
      Fails (.answer status (.whole bytes)) (.unexpectedBody .listConversations)
  | reported {status : Nat} {bytes : List UInt8} {p : Reply.Page}
      (h : Status.isSuccess status = true)
      (hbytes : (Document.ofBytes? bytes).bind Reply.page? = some p) (hok : p.ok = false) :
      Fails (.answer status (.whole bytes)) (.callFailed .listConversations p.error)

theorem serves_or_fails (step : ServerStep) :
    (∃ d p, step.Serves d p) ∨ ∃ e, step.Fails e := by
  cases step with
  | close => exact Or.inr ⟨_, .closed⟩
  | hang => exact Or.inr ⟨_, .hung⟩
  | answer status body =>
      cases hstatus : Status.isSuccess status with
      | false => exact Or.inr ⟨_, .refused hstatus⟩
      | true =>
          cases body with
          | short => exact Or.inr ⟨_, .cut hstatus (by simp)⟩
          | stalled => exact Or.inr ⟨_, .cut hstatus (by simp)⟩
          | whole bytes =>
              cases hbytes : (Document.ofBytes? bytes).bind Reply.page? with
              | none => exact Or.inr ⟨_, .undecodable hstatus hbytes⟩
              | some p =>
                  cases hok : p.ok with
                  | false => exact Or.inr ⟨_, .reported hstatus hbytes hok⟩
                  | true =>
                      obtain ⟨d, hserves⟩ := exists_serves hstatus hbytes hok
                      exact Or.inl ⟨d, p, hserves⟩

end ServerStep

namespace Client

/-- A request for the page after a cursor, archived channels included. -/
structure Asks (c : Client) (cursor : String) (r : Outgoing) : Prop where
  method : r.method = "GET"
  path : r.path = c.path .listConversations
  cursor : r.query.lookup "cursor" = some cursor
  archived : r.query.lookup "exclude_archived" = some "false"

/-- One request arrived for each cursor, in their order, and no other. -/
def AsksInTurn (c : Client) (cursors : List String) (w w' : Wire) : Prop :=
  ∃ requests, w'.received = requests.reverse ++ w.received ∧ List.Forall₂ c.Asks cursors requests

theorem AsksInTurn.cons {c : Client} {cursor : String} {cursors : List String} {r : Outgoing}
    {w m w' : Wire} (hfirst : c.Asks cursor r) (hreceived : m.received = r :: w.received)
    (hrest : c.AsksInTurn cursors m w') : c.AsksInTurn (cursor :: cursors) w w' := by
  obtain ⟨requests, hrequests, hasks⟩ := hrest
  refine ⟨r :: requests, ?_, .cons hfirst hasks⟩
  rw [hrequests, hreceived, List.reverse_cons, List.append_assoc]
  rfl

/-- The server is reached, and the credentials can be sent. -/
def Reaches (c : Client) (w : Wire) : Prop :=
  w.link = .up ∧ isSendable c.token = true

/-- By its script the server serves pages with a cursor and then comes to the last step
of a listing. -/
inductive Leads : List ServerStep → List Reply.Page → ServerStep → Prop where
  | last (script : List ServerStep) : Leads script [] (script.headD .exhausted)
  | more {step last : ServerStep} {rest : List ServerStep} {d : Document} {p : Reply.Page}
      {pages : List Reply.Page} (hserves : step.Serves d p) (hmore : ¬ Reply.NoCursor d)
      (hrest : Leads rest pages last) : Leads (step :: rest) (p :: pages) last

/-- Every script leads to a page without a cursor or to a failure. -/
theorem exists_leads (script : List ServerStep) :
    ∃ pages last, Leads script pages last ∧
      ((∃ d p, last.Serves d p ∧ Reply.NoCursor d) ∨ ∃ e, last.Fails e) := by
  induction script with
  -- Past its script the server refuses every request.
  | nil => exact ⟨[], _, .last [], Or.inr ⟨_, .refused (by decide)⟩⟩
  | cons step rest ih =>
      rcases step.serves_or_fails with ⟨d, p, hserves⟩ | hfails
      · by_cases hlast : Reply.NoCursor d
        · exact ⟨[], step, .last (step :: rest), Or.inl ⟨d, p, hserves, hlast⟩⟩
        · obtain ⟨pages, last, hleads, hends⟩ := ih
          exact ⟨p :: pages, last, .more hserves hlast hleads, hends⟩
      · exact ⟨[], step, .last (step :: rest), Or.inr hfails⟩

section Steps

variable {c : Client} {w : Wire} {step : ServerStep}

/-- Without retries a request takes one step of the script. -/
theorem page_once (hretries : c.maxRetries = 0) (hreaches : c.Reaches w) (cursor : String) :
    (c.page cursor w).1 = answerOf .listConversations Reply.page?
        (w.script.headD .exhausted).attempt ∧
      (c.page cursor w).2.script = w.script.drop 1 ∧
      (∃ r, c.Asks cursor r ∧ (c.page cursor w).2.received = r :: w.received) ∧
      c.Reaches (c.page cursor w).2 := by
  obtain ⟨hlink, htoken⟩ := hreaches
  have hpage : c.page cursor w =
      (answerOf .listConversations Reply.page?
          (w.attempt c.readTimeout (c.question .listConversations (pageQuery cursor))).1,
        (w.attempt c.readTimeout (c.question .listConversations (pageQuery cursor))).2) := by
    rw [page, send, if_pos htoken, hretries]
    rfl
  rw [hpage, Wire.attempt, hlink]
  exact ⟨rfl, rfl, ⟨_, ⟨rfl, rfl, rfl, rfl⟩, rfl⟩, rfl, htoken⟩

/-- A request that cannot be sent leaves the wire as it was. -/
theorem page_unreached (hretries : c.maxRetries = 0) (hnot : ¬ c.Reaches w) (cursor : String) :
    c.page cursor w = (.error (.requestFailed .listConversations), w) := by
  unfold page send
  by_cases htoken : isSendable c.token = true
  · cases hlink : w.link with
    | down =>
        rw [if_pos htoken, hretries, Wire.send, Wire.attempt, hlink]
        rfl
    | up => exact absurd ⟨hlink, htoken⟩ hnot
  · rw [if_neg htoken]
    rfl

theorem listFrom_eq (c : Client) (l : Listing) (w : Wire) :
    c.listFrom l w =
      match l.take (c.page l.cursor w).1 with
      | .ended result => (result, (c.page l.cursor w).2)
      | .more next => c.listFrom next (c.page l.cursor w).2 := by
  rw [listFrom]
  split
  · rename_i e hpage
    simp only [hpage, Listing.take]
  · rename_i p hpage
    -- The two sides decide on the same value but name it in different ways.
    cases hnext : l.take (.ok p) with
    | ended result => simp only [hpage, hnext]
    | more next => simp only [hpage, hnext]

theorem answerOf_of_serves {d : Document} {p : Reply.Page} (h : step.Serves d p) :
    answerOf .listConversations Reply.page? step.attempt = .ok p := by
  obtain ⟨status, bytes, rfl, hstatus, hd, hp, -⟩ := h
  simp only [ServerStep.attempt, answerOf, hstatus, if_true, hd, Option.bind_some, hp]

/-- A failed step ends the listing, and nothing of it is left. -/
theorem take_of_fails {e : SlackError} (l : Listing) (h : step.Fails e) :
    l.take (answerOf .listConversations Reply.page? step.attempt) = .ended (.error e) := by
  cases h with
  | closed => rfl
  | hung => rfl
  | @refused status body hstatus =>
      simp only [ServerStep.attempt, answerOf, hstatus]
      cases body <;> rfl
  | @cut status body hstatus hcut =>
      simp only [ServerStep.attempt, answerOf, hstatus, if_true]
      cases body with
      | whole bytes => exact absurd rfl (hcut bytes)
      | short => rfl
      | stalled => rfl
  | undecodable hstatus hbytes =>
      simp only [ServerStep.attempt, answerOf, hstatus, if_true, hbytes]
      rfl
  | reported hstatus hbytes hok =>
      simp only [ServerStep.attempt, answerOf, hstatus, if_true, hbytes, Listing.take, hok]
      rfl

/-- A page is taken, and the listing goes on if the page has a cursor. -/
theorem take_of_serves {d : Document} {p : Reply.Page} (l : Listing) (h : step.Serves d p) :
    (Reply.NoCursor d → l.take (answerOf .listConversations Reply.page? step.attempt) =
        .ended (.ok (l.found ++ p.channels))) ∧
      (¬ Reply.NoCursor d → l.take (answerOf .listConversations Reply.page? step.attempt) =
        .more ⟨l.found ++ p.channels, p.next⟩) := by
  rw [answerOf_of_serves h, h.noCursor_iff]
  obtain ⟨status, bytes, -, -, -, -, hok⟩ := h
  constructor
  · intro hlast
    simp [Listing.take, hok, hlast]
  · intro hmore
    simp [Listing.take, hok, hmore]

end Steps

/-- A listing that is under way asks for the pages that the script leads it through, one
after the other, and ends as it takes the last step. -/
theorem listFrom_of_leads {c : Client} (hretries : c.maxRetries = 0) {w : Wire}
    (hreaches : c.Reaches w) {l : Listing} {pages : List Reply.Page} {last : ServerStep}
    (h : Leads w.script pages last) {result : Except SlackError (List Channel)}
    (hends : ∀ cursor, Listing.take ⟨l.found ++ pages.flatMap (·.channels), cursor⟩
      (answerOf .listConversations Reply.page? last.attempt) = .ended result) :
    (c.listFrom l w).1 = result ∧
      c.AsksInTurn (l.cursor :: pages.map (·.next)) w (c.listFrom l w).2 := by
  generalize hscript : w.script = script at h
  -- The induction is on the way to the last step, for every listing that is under way: the
  -- channels of a page move from `pages` to what the listing has found.
  induction h generalizing w l with
  | last script =>
      obtain ⟨hanswer, -, ⟨r, hasks, hreceived⟩, -⟩ := page_once hretries hreaches l.cursor
      have hended := hends l.cursor
      -- This is the only request that is left to make.
      rw [List.flatMap_nil, List.append_nil, ← hscript, ← hanswer] at hended
      rw [listFrom_eq, hended]
      exact ⟨rfl, .cons hasks hreceived ⟨[], rfl, .nil⟩⟩
  | @more step last rest d p pages hserves hmore hrest ih =>
      obtain ⟨hanswer, hdrop, ⟨r, hasks, hreceived⟩, hreaches'⟩ :=
        page_once hretries hreaches l.cursor
      rw [hscript] at hanswer hdrop
      rw [listFrom_eq, hanswer, List.headD_cons, (take_of_serves l hserves).2 hmore]
      obtain ⟨hresult, hturn⟩ := ih (l := ⟨l.found ++ p.channels, p.next⟩) hreaches'
        (by simpa [List.append_assoc] using hends) hdrop
      exact ⟨hresult, .cons hasks hreceived hturn⟩

/-- Without retries, from whatever server: if it is not reached or the credentials cannot
be sent, then nothing is asked and the listing fails.  Otherwise its script leads through
pages with a cursor to a last step, a page without one or a failure; the listing has
then asked for these pages, each once and with the cursor of the page before it, and it
returns all their channels in order, or the failure. -/
theorem listChannels_once (c : Client) (w : Wire) :
    let once := { c with maxRetries := 0 }
    let listed := once.listChannels w
    (¬ once.Reaches w → listed = (.error (.requestFailed .listConversations), w)) ∧
      (once.Reaches w →
        (∃ pages last, Leads w.script pages last ∧
          ((∃ d p, last.Serves d p ∧ Reply.NoCursor d) ∨ ∃ e, last.Fails e)) ∧
        ∀ pages last, Leads w.script pages last →
          (∀ d p, last.Serves d p → Reply.NoCursor d →
            listed.1 = .ok ((pages ++ [p]).flatMap (·.channels)) ∧
              once.AsksInTurn ("" :: pages.map (·.next)) w listed.2) ∧
          ∀ e, last.Fails e →
            listed.1 = .error e ∧ once.AsksInTurn ("" :: pages.map (·.next)) w listed.2) := by
  intro once listed
  refine ⟨fun hnot => ?_, fun hreaches => ⟨exists_leads w.script, ?_⟩⟩
  · show once.listFrom ⟨[], ""⟩ w = _
    rw [listFrom_eq, page_unreached rfl hnot]
    rfl
  · intro pages last hleads
    refine ⟨fun d p hserves hlast => ?_, fun e hfails => ?_⟩
    · refine listFrom_of_leads (c := once) rfl hreaches (l := ⟨[], ""⟩) hleads fun cursor => ?_
      rw [(take_of_serves _ hserves).1 hlast, List.flatMap_append, List.flatMap_singleton]
      rfl
    · exact listFrom_of_leads (c := once) rfl hreaches (l := ⟨[], ""⟩) hleads fun cursor =>
        take_of_fails _ hfails

/-- A server that answers with the given texts. -/
def answers (texts : List String) : List ServerStep :=
  texts.map fun text => .answer 200 (.whole (Utf8.encode text))

/-- Three pages, the second of them without channels. -/
def threePages : List String :=
  ["\x7b\"ok\":true,\"channels\":[\x7b\"id\":\"C1\",\"name\":\"general\"\x7d]," ++
      "\"response_metadata\":\x7b\"next_cursor\":\"a\"\x7d\x7d",
    "\x7b\"ok\":true,\"response_metadata\":\x7b\"next_cursor\":\"b\"\x7d\x7d",
    "\x7b\"ok\":true,\"channels\":[\x7b\"id\":\"C2\",\"name\":\"old\"," ++
      "\"is_archived\":true\x7d],\"response_metadata\":null\x7d"]

theorem listChannels_threePages :
    let c : Client := ⟨"xoxb-test", "", 0, 20000⟩
    let w := Wire.fresh .up (answers threePages) none
    (c.listChannels w).1 = .ok [⟨"C1", "general", false⟩, ⟨"C2", "old", true⟩] ∧
      c.AsksInTurn ["", "a", "b"] w (c.listChannels w).2 := by
  intro c w
  have hreads : threePages.map (fun text =>
      (Document.ofBytes? (Utf8.encode text)).bind Reply.page?) =
        [some ⟨true, "", [⟨"C1", "general", false⟩], "a"⟩, some ⟨true, "", [], "b"⟩,
          some ⟨true, "", [⟨"C2", "old", true⟩], ""⟩] := by
    decide +kernel
  obtain ⟨hfirst, hempty, hlast, -⟩ : _ ∧ _ ∧ _ ∧ _ := by
    simpa only [threePages, List.map_cons, List.cons.injEq] using hreads
  have hstatus : Status.isSuccess 200 = true := by decide
  obtain ⟨d₁, h₁⟩ := ServerStep.exists_serves hstatus hfirst rfl
  obtain ⟨d₂, h₂⟩ := ServerStep.exists_serves hstatus hempty rfl
  obtain ⟨d₃, h₃⟩ := ServerStep.exists_serves hstatus hlast rfl
  have hleads : Leads w.script [⟨true, "", [⟨"C1", "general", false⟩], "a"⟩,
      ⟨true, "", [], "b"⟩] _ :=
    .more h₁ (by simp [h₁.noCursor_iff]) (.more h₂ (by simp [h₂.noCursor_iff]) (.last _))
  have hlisted := ((listChannels_once c w).2 ⟨rfl, by decide⟩).2 _ _ hleads
  exact hlisted.1 d₃ _ h₃ (h₃.noCursor_iff.2 rfl)

end Client

end ChannelRelay
