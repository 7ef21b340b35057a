import ChannelRelay.Proofs.Counters
import ChannelRelay.Proofs.Store.Effects

/-!
# What becomes of a webhook request

Every webhook request comes to one of six ends, in the order of its checks: its path is no
address, the records cannot be read, its name is unknown, its token is wrong, its body is no
payload, or it is posted (`Webhook.Fate`).  `Webhook.handle_fate` says that this is all
there is: the status of the response, the post, and the count are those of the end that the
request comes to, and the stored records stay as they are.
-/

namespace ChannelRelay

namespace Rotation

/-- What a token turns out to be, by the records that were found under its name. -/
def verdict (token : String) (found : List Credential) : Verdict :=
  if found.isEmpty then .notFound
  else
    match found.find? (·.token == token) with
    | some c => .matched c.channelId c.channelName
    | none => .unmatch

/-- A check asks for the records of the name, once, and judges by them. -/
theorem verify_eq (name token : String) :
    verify name token = verdict token <$> Operation.query name := by
  refine congrArg (Dialogue.ask (.query name)) (funext fun answer => ?_)
  cases answer with
  | error e => rfl
  | ok found =>
      show (if found.isEmpty then _ else _ : Operation Verdict) = pure (verdict token found)
      unfold verdict
      split
      · rfl
      · cases found.find? (·.token == token) <;> rfl

/-- A match stands for one of the records. -/
theorem exists_of_verdict {token id name : String} {found : List Credential}
    (h : verdict token found = .matched id name) :
    ∃ c ∈ found, c.token = token ∧ c.channelId = id ∧ c.channelName = name := by
  unfold verdict at h
  split at h
  · exact absurd h (by simp)
  · split at h
    · rename_i c hfind
      obtain ⟨hid, hname⟩ := Verdict.matched.inj h
      exact ⟨c, List.mem_of_find?_eq_some hfind, by simpa using List.find?_some hfind, hid, hname⟩
    · exact absurd h (by simp)

end Rotation

namespace Surroundings

/-- Where a check of a token leaves off: only what a store keeps of its queries is new. -/
def checked (s : Surroundings) (name : String) : Surroundings :=
  { s with store := (s.store.query name).2 }

theorem records_checked (s : Surroundings) (name : String) :
    (s.checked name).store.records = s.store.records := by
  rw [checked, Store.records_eq, Store.held_query, Store.records_eq]

theorem perform_check (name token : String) (s : Surroundings) :
    s.perform (Rotation.verify name token) =
      (((s.store.query name).1.mapError .store).map (Rotation.verdict token),
        s.checked name) := by
  rw [Rotation.verify_eq, perform_map, perform_query]
  rfl

/-- The records of a name are read and judged, or the failure to read them is the end. -/
theorem perform_check_cases (name token : String) (s : Surroundings) :
    (∃ e, s.perform (Rotation.verify name token) = (.error (.store e), s.checked name)) ∨
      ∃ found, (∀ c ∈ found, c ∈ under name s.store.records) ∧
        s.perform (Rotation.verify name token) =
          (.ok (Rotation.verdict token found), s.checked name) := by
  rw [perform_check]
  cases hfound : (s.store.query name).1 with
  | error e => exact Or.inl ⟨e, rfl⟩
  | ok found =>
      refine Or.inr ⟨found, fun c hc => ?_, rfl⟩
      rw [Store.records_eq]
      exact Store.mem_of_query hfound hc

end Surroundings

namespace Webhook

/-- The status that answers a post that was tried. -/
def postStatus : Except SlackError PostResult → Nat
  | .ok .ok => 200
  | .ok .timeout => 504
  | .ok (.serverFailure status _) =>
    if Status.isServerError status then 502
    else if Status.isClientError status then status
    else 502
  | .ok (.rejected _ _ _) => 400
  | .error _ => 502

/-- What a post that was tried counts as. -/
def postOutcome : Except SlackError PostResult → Outcome
  | .ok .ok => .delivered
  | .ok .timeout => .timeout
  | .ok (.serverFailure _ _) => .serviceError
  | .ok (.rejected _ _ _) => .rejected
  | .error _ => .failed

/-- Success is reported for posts that succeeded, and for no others. -/
theorem postStatus_eq_ok_iff {result : Except SlackError PostResult} :
    postStatus result = 200 ↔ result = .ok .ok := by
  constructor
  · intro h
    cases result with
    | error e => exact absurd h (by simp [postStatus])
    | ok result =>
        cases result with
        | ok => rfl
        | timeout => exact absurd h (by simp [postStatus])
        | rejected reason id name => exact absurd h (by simp [postStatus])
        | serverFailure status body =>
            simp only [postStatus] at h
            split at h
            · exact absurd h (by simp)
            · split at h
              · rename_i hclient
                rw [h] at hclient
                exact absurd hclient (by decide)
              · exact absurd h (by simp)
  · rintro rfl
    rfl

/-- The end that a request comes to, with the status of its response, the outcome that is
counted and the message that is posted. -/
inductive Fate (r : Request) (s : Surroundings) : Nat → Option Outcome → Option Posted → Prop where
  | invalidPath (hpath : Address.ofPath? r.path = none) : Fate r s 400 (some .invalidPath) none
  | unread {a : Address} {e : StoreError} (hpath : Address.ofPath? r.path = some a)
      (hcheck : (s.perform (Rotation.verify a.channelName a.token)).1 = .error (.store e)) :
      Fate r s 500 none none
  | notFound {a : Address} (hpath : Address.ofPath? r.path = some a)
      (hcheck : (s.perform (Rotation.verify a.channelName a.token)).1 = .ok .notFound) :
      Fate r s 404 (some .notFound) none
  | unmatch {a : Address} (hpath : Address.ofPath? r.path = some a)
      (hcheck : (s.perform (Rotation.verify a.channelName a.token)).1 = .ok .unmatch) :
      Fate r s 401 (some .unmatch) none
  | badBody {a : Address} {id name : String} {e : PayloadError}
      (hpath : Address.ofPath? r.path = some a)
      (hcheck : (s.perform (Rotation.verify a.channelName a.token)).1 = .ok (.matched id name))
      (hbody : Payload.read r.headers r.body = .error e) :
      Fate r s 400 (some .badBody) none
  | posted {a : Address} {c : Credential} {payload : Json.Members}
      (hpath : Address.ofPath? r.path = some a)
      (hcheck : (s.perform (Rotation.verify a.channelName a.token)).1 =
        .ok (.matched c.channelId c.channelName))
      (hrecord : c ∈ under a.channelName s.store.records) (htoken : c.token = a.token)
      (hbody : Payload.read r.headers r.body = .ok payload) :
      Fate r s (postStatus (s.chat.post c.channelId c.channelName payload).1)
        (some (postOutcome (s.chat.post c.channelId c.channelName payload).1))
        (some ⟨c.channelId, c.channelName, payload⟩)

/-- What the answer to a request shows, with the surroundings before it: its status, what was
posted and what was counted.  The chat service has nothing to do with it but for the post, and
the records are those that were stored before. -/
structure Shows (s : Surroundings) (status : Nat) (outcome : Option Outcome)
    (post : Option Posted) (result : Response × Surroundings) : Prop where
  status_eq : result.1.status = status
  posted_eq : result.2.posted = post.toList ++ s.posted
  chat_eq : result.2.chat =
    post.elim s.chat fun p => (s.chat.post p.channel p.channelName p.payload).2
  metrics_eq : result.2.metrics =
    s.metrics.after (outcome.toList.map fun o => (.webhookRequests, o.label))
  records_eq : result.2.store.records = s.store.records

/-- What an operation shows when it is run, failures included. -/
abbrev Ends (operation : Operation Response) (s : Surroundings) (status : Nat)
    (outcome : Option Outcome) (post : Option Posted) : Prop :=
  Shows s status outcome post ((Server.settled operation).run Surroundings.answer s)

theorem ends_reply (o : Outcome) (status : Nat) (text : String) (s : Surroundings) :
    Ends (reply o status text) s status (some o) none :=
  ⟨rfl, rfl, rfl, rfl, rfl⟩

/-- The answer to a post tells how the post ended. -/
theorem ends_answer (result : PostResult) (s : Surroundings) :
    Ends (answer result) s (postStatus (.ok result)) (some (postOutcome (.ok result))) none := by
  cases result with
  | ok => exact ends_reply .delivered 200 _ s
  | timeout => exact ends_reply .timeout 504 _ s
  | rejected reason id name => exact ends_reply .rejected 400 _ s
  | serverFailure status body =>
      simp only [answer, postStatus]
      split
      · exact ends_reply .serviceError 502 _ s
      · split
        · exact ends_reply .serviceError status _ s
        · exact ⟨rfl, rfl, rfl, rfl, rfl⟩

/-- A post is tried once.  If it cannot be made, that is counted before it fails. -/
theorem perform_post (id name : String) (payload : Json.Members) (s : Surroundings) :
    s.perform (post id name payload) =
      match (s.chat.post id name payload).1 with
      | .ok result => (.ok result,
          { s with
            chat := (s.chat.post id name payload).2
            posted := ⟨id, name, payload⟩ :: s.posted })
      | .error e => (.error (.slack e),
          { s with
            chat := (s.chat.post id name payload).2
            posted := ⟨id, name, payload⟩ :: s.posted
            metrics := s.metrics.count .webhookRequests Outcome.failed.label }) := by
  rw [post, Surroundings.perform_tryCatch, Surroundings.perform_post]
  cases (s.chat.post id name payload).1 with
  | ok result => rfl
  | error e => rfl

theorem ends_post (id name : String) (payload : Json.Members) (s : Surroundings) :
    Ends (post id name payload >>= answer) s
      (postStatus (s.chat.post id name payload).1)
      (some (postOutcome (s.chat.post id name payload).1)) (some ⟨id, name, payload⟩) := by
  have hpost := perform_post id name payload s
  cases hresult : (s.chat.post id name payload).1 with
  | ok result =>
      rw [hresult] at hpost
      rw [Ends, Server.run_settled_of_ok hpost]
      obtain ⟨hstatus, hposted, hchat, hmetrics, hrecords⟩ := ends_answer result
        { s with
          chat := (s.chat.post id name payload).2
          posted := ⟨id, name, payload⟩ :: s.posted }
      exact ⟨hstatus, hposted, hchat, hmetrics, hrecords⟩
  | error e =>
      rw [hresult] at hpost
      rw [Ends, Server.run_settled_of_error hpost]
      exact ⟨rfl, rfl, rfl, rfl, rfl⟩

/-- After its check a request shows what it would show in the surroundings before it. -/
theorem ends_of_checked {name token : String} {f : Rotation.Verdict → Operation Response}
    {s : Surroundings} {verdict : Rotation.Verdict} {status : Nat} {outcome : Option Outcome}
    {post : Option Posted}
    (hcheck : s.perform (Rotation.verify name token) = (.ok verdict, s.checked name))
    (h : Ends (f verdict) (s.checked name) status outcome post) :
    Ends (Rotation.verify name token >>= f) s status outcome post := by
  rw [Ends, Server.run_settled_of_ok hcheck]
  exact ⟨h.status_eq, h.posted_eq, h.chat_eq, h.metrics_eq,
    h.records_eq.trans (s.records_checked name)⟩

/-- A check that fails shows as an internal error and counts as nothing. -/
theorem ends_of_unread {name token : String} {f : Rotation.Verdict → Operation Response}
    {s : Surroundings} {e : StoreError}
    (hcheck : s.perform (Rotation.verify name token) = (.error (.store e), s.checked name)) :
    Ends (Rotation.verify name token >>= f) s 500 none none := by
  rw [Ends, Server.run_settled_of_error hcheck]
  exact ⟨rfl, rfl, rfl, rfl, s.records_checked name⟩

/-- What follows the check of a token. -/
def afterCheck (r : Request) (a : Address) : Rotation.Verdict → Operation Response
  | .notFound => reply .notFound 404 (notFoundText a.channelName)
  | .unmatch => reply .unmatch 401 "Invalid token given. Check generated URL.\n"
  | .matched channelId channelName => deliver channelId channelName r.headers r.body

theorem handle_of_address {r : Request} {a : Address} (hpath : Address.ofPath? r.path = some a) :
    handle r = Rotation.verify a.channelName a.token >>= afterCheck r a := by
  rw [handle, hpath]
  refine congrArg (Rotation.verify a.channelName a.token >>= ·) (funext fun verdict => ?_)
  cases verdict <;> rfl

/-- Every request comes to an end of its own, and that is what it shows. -/
theorem exists_fate (r : Request) (s : Surroundings) :
    ∃ status outcome post, Fate r s status outcome post ∧
      Ends (handle r) s status outcome post := by
  cases hpath : Address.ofPath? r.path with
  | none =>
      rw [handle, hpath]
      exact ⟨400, _, _, .invalidPath hpath, ends_reply .invalidPath 400 _ s⟩
  | some a =>
      rw [handle_of_address hpath]
      rcases s.perform_check_cases a.channelName a.token with ⟨e, hcheck⟩ | ⟨found, hfound, hcheck⟩
      · exact ⟨500, _, _, .unread hpath (congrArg Prod.fst hcheck), ends_of_unread hcheck⟩
      · have hfirst := congrArg Prod.fst hcheck
        cases hverdict : Rotation.verdict a.token found with
        | notFound =>
            rw [hverdict] at hfirst hcheck
            exact ⟨404, _, _, .notFound hpath hfirst,
              ends_of_checked hcheck (ends_reply .notFound 404 _ _)⟩
        | unmatch =>
            rw [hverdict] at hfirst hcheck
            exact ⟨401, _, _, .unmatch hpath hfirst,
              ends_of_checked hcheck (ends_reply .unmatch 401 _ _)⟩
        | matched id name =>
            rw [hverdict] at hfirst hcheck
            obtain ⟨c, hc, htoken, rfl, rfl⟩ := Rotation.exists_of_verdict hverdict
            cases hbody : Payload.read r.headers r.body with
            | error e =>
                refine ⟨400, _, _, .badBody hpath hfirst hbody, ends_of_checked hcheck ?_⟩
                rw [afterCheck, deliver, hbody]
                exact ends_reply .badBody 400 _ _
            | ok payload =>
                refine ⟨_, _, _, .posted hpath hfirst (hfound c hc) htoken hbody,
                  ends_of_checked hcheck ?_⟩
                rw [afterCheck, deliver, hbody]
                exact ends_post _ _ payload _

/-- The token of a request is valid, and it stands for a channel under a name. -/
def Valid (r : Request) (s : Surroundings) (id name : String) : Prop :=
  ∃ a, Address.ofPath? r.path = some a ∧
    (s.perform (Rotation.verify a.channelName a.token)).1 = .ok (.matched id name)

section Fates

variable {r : Request} {s : Surroundings} {status : Nat} {outcome : Option Outcome}
  {post : Option Posted}

/-- A valid token with a payload has no other end than the post. -/
theorem Fate.of_valid (h : Fate r s status outcome post) {id name : String}
    {payload : Json.Members} (hvalid : Valid r s id name)
    (hbody : Payload.read r.headers r.body = .ok payload) :
    status = postStatus (s.chat.post id name payload).1 ∧ post = some ⟨id, name, payload⟩ := by
  obtain ⟨a, hpath, hcheck⟩ := hvalid
  -- Each end but the last differs in the path, in the check or in the body.
  cases h with
  | invalidPath hnone => exact absurd (hnone.symm.trans hpath) (by simp)
  | unread hpath' hcheck' =>
      obtain rfl := Option.some.inj (hpath'.symm.trans hpath)
      exact absurd (hcheck'.symm.trans hcheck) (by simp)
  | notFound hpath' hcheck' =>
      obtain rfl := Option.some.inj (hpath'.symm.trans hpath)
      exact absurd (hcheck'.symm.trans hcheck) (by simp)
  | unmatch hpath' hcheck' =>
      obtain rfl := Option.some.inj (hpath'.symm.trans hpath)
      exact absurd (hcheck'.symm.trans hcheck) (by simp)
  | badBody _ _ hbody' => exact absurd (hbody'.symm.trans hbody) (by simp)
  | posted hpath' hcheck' _ _ hbody' =>
      obtain rfl := Option.some.inj (hpath'.symm.trans hpath)
      obtain rfl := Except.ok.inj (hbody'.symm.trans hbody)
      obtain ⟨rfl, rfl⟩ := Rotation.Verdict.matched.inj
        (Except.ok.inj (hcheck'.symm.trans hcheck))
      exact ⟨rfl, rfl⟩

/-- What is posted is the payload of a valid token, and it goes to the channel of a record
that is stored under the name of the request with the token of the request. -/
theorem Fate.of_posted (h : Fate r s status outcome post) {p : Posted} (hpost : post = some p) :
    Valid r s p.channel p.channelName ∧ Payload.read r.headers r.body = .ok p.payload ∧
      ∃ a c, Address.ofPath? r.path = some a ∧ c ∈ under a.channelName s.store.records ∧
        c.token = a.token ∧ c.channelId = p.channel := by
  cases h with
  | posted hpath hcheck hrecord htoken hbody =>
      obtain rfl := Option.some.inj hpost
      exact ⟨⟨_, hpath, hcheck⟩, hbody, _, _, hpath, hrecord, htoken, rfl⟩
  | _ => exact absurd hpost (by simp)

/-- Only a post is answered with success. -/
theorem Fate.posted_of_ok (h : Fate r s status outcome post) (hstatus : status = 200) :
    ∃ p, post = some p ∧ (s.chat.post p.channel p.channelName p.payload).1 = .ok .ok := by
  cases h with
  | posted => exact ⟨_, rfl, postStatus_eq_ok_iff.1 hstatus⟩
  | _ => exact absurd hstatus (by decide)

end Fates

/-- Without a valid token nothing of a request but its path is looked at. -/
theorem run_handle_of_invalid {r r' : Request} {s : Surroundings} (hpath : r'.path = r.path)
    (hinvalid : ∀ id name, ¬ Valid r s id name) :
    (Server.settled (handle r')).run Surroundings.answer s =
      (Server.settled (handle r)).run Surroundings.answer s := by
  cases haddress : Address.ofPath? r.path with
  | none => rw [handle, handle, hpath, haddress]
  | some a =>
      rw [handle_of_address haddress, handle_of_address (hpath ▸ haddress)]
      rcases s.perform_check_cases a.channelName a.token with ⟨e, hcheck⟩ | ⟨found, -, hcheck⟩
      · rw [Server.run_settled_of_error hcheck, Server.run_settled_of_error hcheck]
      · rw [Server.run_settled_of_ok hcheck, Server.run_settled_of_ok hcheck]
        cases hverdict : Rotation.verdict a.token found with
        | notFound => rfl
        | unmatch => rfl
        | matched id name =>
            -- The body is read after a match only, and there is none.
            rw [hverdict] at hcheck
            exact absurd ⟨a, haddress, congrArg Prod.fst hcheck⟩ (hinvalid id name)

/-- What a webhook request comes to, whatever the store holds and however it behaves, and
whatever the chat service answers.

1. The response, the post, the chat service and the counters are those of the end that the
   request comes to in the order of the checks.  At most one outcome is counted, and none
   only if the records could not be read.
2. A message is posted exactly if the token is valid and the body is a payload, and then it
   is one message, to the channel of a record of the token.
3. Success is reported exactly if the post succeeded.
4. The stored records stay as they are.
5. Without a valid token the response and all else depend on nothing of the request but its
   path. -/
theorem handle_fate (r : Request) (s : Surroundings) :
    let result := (Server.settled (handle r)).run Surroundings.answer s
    (∃ status outcome post, Fate r s status outcome post ∧
      result.1.status = status ∧
      result.2.posted = post.toList ++ s.posted ∧
      result.2.chat = (post.elim s.chat fun p =>
        (s.chat.post p.channel p.channelName p.payload).2) ∧
      result.2.metrics = s.metrics.after
        (outcome.toList.map fun o => (.webhookRequests, o.label)) ∧
      result.2.metrics.webhookRequests.total =
        s.metrics.webhookRequests.total + outcome.toList.length) ∧
    ((∃ p, result.2.posted = p :: s.posted) ↔
      ∃ id name payload, Valid r s id name ∧ Payload.read r.headers r.body = .ok payload) ∧
    (∀ p, result.2.posted = p :: s.posted → ∃ a c, Address.ofPath? r.path = some a ∧
      c ∈ under a.channelName s.store.records ∧ c.token = a.token ∧ c.channelId = p.channel) ∧
    (result.1.status = 200 ↔ ∃ id name payload, Valid r s id name ∧
      Payload.read r.headers r.body = .ok payload ∧
      (s.chat.post id name payload).1 = .ok .ok) ∧
    result.2.store.records = s.store.records ∧
    ∀ r' : Request, r'.path = r.path → (∀ id name, ¬ Valid r s id name) →
      (Server.settled (handle r')).run Surroundings.answer s = result := by
  intro result
  obtain ⟨status, outcome, post, hfate, hshows⟩ := exists_fate r s
  have hposted : ∀ p, result.2.posted = p :: s.posted ↔ post = some p := by
    intro p
    rw [hshows.posted_eq]
    cases post <;> simp
  refine ⟨⟨status, outcome, post, hfate, hshows.status_eq, hshows.posted_eq, hshows.chat_eq,
    hshows.metrics_eq, ?_⟩, ?_, ?_, ?_, hshows.records_eq, ?_⟩
  · rw [hshows.metrics_eq]
    cases outcome with
    | none => rfl
    | some o => exact Counts.total_add _ _ 1
  · constructor
    · rintro ⟨p, hp⟩
      obtain ⟨hvalid, hbody, -⟩ := hfate.of_posted ((hposted p).1 hp)
      exact ⟨_, _, _, hvalid, hbody⟩
    · rintro ⟨id, name, payload, hvalid, hbody⟩
      exact ⟨_, (hposted _).2 (hfate.of_valid hvalid hbody).2⟩
  · intro p hp
    exact (hfate.of_posted ((hposted p).1 hp)).2.2
  · rw [hshows.status_eq]
    constructor
    · intro hstatus
      obtain ⟨p, hpost, hok⟩ := hfate.posted_of_ok hstatus
      obtain ⟨hvalid, hbody, -⟩ := hfate.of_posted hpost
      exact ⟨_, _, _, hvalid, hbody, hok⟩
    · rintro ⟨id, name, payload, hvalid, hbody, hok⟩
      rw [(hfate.of_valid hvalid hbody).1, hok]
      rfl
  · intro r' hpath hinvalid
    exact run_handle_of_invalid hpath hinvalid

end Webhook

end ChannelRelay
