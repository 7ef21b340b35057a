import ChannelRelay.Proofs.Json.Reading
import ChannelRelay.Proofs.Slack.Attempts
import ChannelRelay.Proofs.Webhook.Payload

/-!
# Posted messages

The text of a posted message is the document of the payload with the channel set, whatever else is
in it.  It is read as the same object exactly if the other members fit (`posted_reads_back`).  Keys
are written in ascending order: where this brings the key of embedded texts to the front of an inner
object, and where embedded texts have made the payload too deep, the text has no value.
-/

namespace ChannelRelay

open Json (Document Members)

namespace Payload

/-- The documents that a payload may be read from: the body, and the values of the field. -/
def Offers (body : List UInt8) (d : Document) : Prop :=
  Document.ofBytes? body = some d ∨
    ∃ value ∈ Form.valuesOf field (Form.parse body), Document.ofChars? value.toList = some d

variable {headers : Headers} {body : List UInt8} {members : Members}

/-- A payload is the object of a text that the body offers. -/
theorem exists_text_of_read (h : read headers body = .ok members) :
    ∃ text, Json.recordOfText? text = some members ∧
      ∀ d, Document.ofChars? text.toList = some d → Offers body d := by
  have hbody : Json.recordOfBytes? body = some members → ∃ text,
      Json.recordOfText? text = some members ∧
        ∀ d, Document.ofChars? text.toList = some d → Offers body d := by
    intro hrecord
    obtain ⟨text, htext, hrecord⟩ := Option.bind_eq_some_iff.1 hrecord
    refine ⟨text, hrecord, fun d hd => Or.inl ?_⟩
    rw [Document.ofBytes?, htext]
    exact hd
  by_cases hform : isForm headers = true
  · obtain ⟨-, hrecord⟩ | ⟨value, hvalues, hrecord⟩ := (read_form_iff hform).1 h
    · exact hbody hrecord
    · have hmem : value ∈ Form.valuesOf field (Form.parse body) := by
        rw [hvalues]
        exact List.mem_cons_self
      exact ⟨value, hrecord, fun d hd => Or.inr ⟨value, hmem, hd⟩⟩
  · rw [read_of_not_form (Bool.eq_false_iff.2 hform), found_eq_ok_iff] at h
    exact hbody h

/-- The text of an object whose values fit is a payload of its own. -/
theorem read_print (hwhole : (Json.object members).IsWhole) (hascending : members.Ascending)
    (hregular : ∀ m ∈ members, m.2.IsRegular)
    (hfits : ∀ m ∈ members, m.2.Fits (Document.maxDepth - 1)) :
    read [] (Utf8.encode (Json.object members).print) = .ok members := by
  rw [read_of_not_form rfl, found_eq_ok_iff, Json.recordOfBytes?_print hwhole,
    Json.record?_document hwhole hascending hregular]
  exact ⟨rfl, hfits⟩

end Payload

namespace Client

variable {members : Members} {channel : String}

/-- Every number of the payload is whole, but for what the channel replaces. -/
def HasWholeNumbers (members : Members) : Prop :=
  ∀ m ∈ members, m.1 ≠ "channel" → m.2.IsWhole

theorem isWhole_message (hascending : members.Ascending) (hwhole : HasWholeNumbers members) :
    (message channel members).IsWhole := by
  refine Json.isWhole_object fun m hm => ?_
  obtain rfl | ⟨hm, hne⟩ := (Members.mem_set_iff hascending).1 hm
  · exact Json.isWhole_text channel
  · exact hwhole m hm hne

/-- The text of a message is read as the message exactly if the payload fits, and as nothing
else. -/
theorem recordOfBytes?_posted (c : Client) (hascending : members.Ascending)
    (hregular : ∀ m ∈ members, m.2.IsRegular) (hwhole : HasWholeNumbers members) {r : Members} :
    Json.recordOfBytes? (c.postRequest channel members).body = some r ↔
      r = members.set "channel" (.text channel) ∧
        ∀ m ∈ members, m.1 ≠ "channel" → m.2.Fits (Document.maxDepth - 1) := by
  have hvalues : ∀ m ∈ members.set "channel" (.text channel), m.2.IsRegular := by
    intro m hm
    obtain rfl | hm := Members.mem_set hm
    · exact Json.isRegular_of_isLeaf rfl
    · exact hregular m hm
  rw [postRequest, Json.recordOfBytes?_print (isWhole_message hascending hwhole), message,
    Json.record?_document (isWhole_message hascending hwhole) hascending.set hvalues]
  refine and_congr_right fun _ => ?_
  constructor
  · intro hfits m hm hne
    exact hfits m ((Members.mem_set_iff hascending).2 (Or.inr ⟨hm, hne⟩))
  · intro hfits m hm
    obtain rfl | ⟨hm, hne⟩ := (Members.mem_set_iff hascending).1 hm
    · exact Json.fits_of_isLeaf rfl _
    · exact hfits m hm hne

/-- A payload whose numbers are whole is posted as itself with the channel in it: every request
that arrives carries a text of this one object, in which the channel has one member and the other
members are those of the payload.  A reader of JSON takes the text for the object exactly if the
other members fit, and never for another object.  They fit if in what the body offers no object has
the key of embedded texts. -/
theorem posted_reads_back (c : Client) (channel channelName : String) (w : Wire)
    {headers : Headers} {body : List UInt8} (hread : Payload.read headers body = .ok members)
    (hwhole : HasWholeNumbers members) :
    let posted := members.set "channel" (.text channel)
    let request := c.postRequest channel members
    (∃ n, (c.post channel channelName members w).2.received =
        List.replicate n request ++ w.received) ∧
      (posted.Ascending ∧ ∀ m, m ∈ posted ↔
        m = ("channel", .text channel) ∨ (m ∈ members ∧ m.1 ≠ "channel")) ∧
      Document.ofBytes? request.body = some (Json.object posted).document ∧
      (∀ r, Json.recordOfBytes? request.body = some r ↔
        r = posted ∧ ∀ m ∈ members, m.1 ≠ "channel" → m.2.Fits (Document.maxDepth - 1)) ∧
      ((∀ d, Payload.Offers body d → d.IsPlain) →
        Json.recordOfBytes? request.body = some posted) := by
  intro posted request
  obtain ⟨text, hrecord, hoffers⟩ := Payload.exists_text_of_read hread
  obtain ⟨hascending, hregular⟩ := Json.isRegular_of_recordOfText? hrecord
  have hreads : ∀ r, Json.recordOfBytes? request.body = some r ↔
      r = posted ∧ ∀ m ∈ members, m.1 ≠ "channel" → m.2.Fits (Document.maxDepth - 1) :=
    fun r => recordOfBytes?_posted c hascending hregular hwhole
  refine ⟨c.exists_replicate_of_send request w, ?_, ?_, hreads, fun hplain => ?_⟩
  · exact ⟨hascending.set, fun m => Members.mem_set_iff hascending⟩
  · exact Json.ofBytes?_print (isWhole_message hascending hwhole)
  · have hfits := Json.fits_of_recordOfText? hrecord fun d hd => hplain d (hoffers d hd)
    exact (hreads posted).2 ⟨rfl, fun m hm _ => hfits m hm⟩

/-- A payload with quotes, control characters and a character outside the first plane, in which the
caller names a channel. -/
def namedChannel : Members :=
  [("channel", .text "C9"), ("n", .int 18446744073709551615), ("text", .text "\"\\\n\x01😀")]

theorem posted_namedChannel :
    let c : Client := ⟨"xoxb-test", "", 0, 20000⟩
    Payload.read [] (Utf8.encode (Json.object namedChannel).print) = .ok namedChannel ∧
      Json.recordOfBytes? (c.postRequest "C1" namedChannel).body =
        some [("channel", .text "C1"), ("n", .int 18446744073709551615),
          ("text", .text "\"\\\n\x01😀")] := by
  intro c
  have hnumber : (Json.int 18446744073709551615).IsWhole :=
    Json.isWhole_int ⟨by decide, by decide⟩
  have hwhole : (Json.object namedChannel).IsWhole :=
    Json.isWhole_object (by simp [namedChannel, Json.isWhole_text, hnumber])
  have hleaf : ∀ m ∈ namedChannel, m.2.isLeaf = true := by decide
  have hfits : ∀ m ∈ namedChannel, m.2.Fits (Document.maxDepth - 1) :=
    fun m hm => Json.fits_of_isLeaf (hleaf m hm) _
  have hascending : namedChannel.Ascending := by
    unfold Members.Ascending
    decide
  have hread := Payload.read_print hwhole hascending
    (fun m hm => Json.isRegular_of_isLeaf (hleaf m hm)) hfits
  have hposted : namedChannel.set "channel" (.text "C1") =
      ("channel", .text "C1") :: namedChannel.tail :=
    (if_neg (lt_irrefl _)).trans (if_pos rfl)
  have hnumbers : HasWholeNumbers namedChannel :=
    fun m hm _ => hwhole.part (.member hm (.self m.2))
  obtain ⟨-, -, -, hreads, -⟩ :=
    posted_reads_back c "C1" "ci" (Wire.fresh .up [] none) hread hnumbers
  exact ⟨hread, (hreads _).2 ⟨hposted.symm, fun m hm _ => hfits m hm⟩⟩

/-- The payload that `shadowBody` holds: its inner object begins with the key of embedded texts. -/
def shadow : Members := [("a", .object [(Document.embeddingKey, .int 2), ("b", .int 1)])]

/-- A body in which the key of embedded texts comes second, so that it is a key like any other. -/
def shadowBody : List UInt8 :=
  Utf8.encode "\x7b\"a\":\x7b\"b\":1,\"$serde_json::private::RawValue\":2\x7d\x7d"

theorem read_shadowBody : Payload.read [] shadowBody = .ok shadow := by
  have hbody : shadowBody = Utf8.encode (Json.print
      (.object [("a", .object [("b", .int 1), (Document.embeddingKey, .int 2)])])) := by
    decide +kernel
  have hone : Json.IsInteger 1 := ⟨by decide, by decide⟩
  have htwo : Json.IsInteger 2 := ⟨by decide, by decide⟩
  have hinner : (Json.object [("b", .int 1), (Document.embeddingKey, .int 2)]).IsWhole :=
    Json.isWhole_object (by simp [Json.isWhole_int hone, Json.isWhole_int htwo])
  have hwhole : (Json.object [("a", .object [("b", .int 1),
      (Document.embeddingKey, .int 2)])]).IsWhole :=
    Json.isWhole_object (by simp [hinner])
  rw [Payload.read_of_not_form rfl, Payload.found_eq_ok_iff, hbody,
    Json.recordOfBytes?_print hwhole]
  have hne : "b" ≠ Document.embeddingKey := by decide
  have hnil : ∀ key value, Members.set key value [] = [(key, value)] := fun _ _ => rfl
  have hset : Members.set Document.embeddingKey (.int 2) [("b", .int 1)] =
      [(Document.embeddingKey, .int 2), ("b", .int 1)] := if_pos (by decide)
  simp [Json.document, Json.memberDocuments, Document.record?, Document.members?,
    Document.valueWithin?, Json.value?_ofInt hone, Json.value?_ofInt htwo, Document.isEmbedding,
    hne, hnil, hset, shadow, Document.maxDepth]

/-- Not every payload is read back from its message: an inner object that begins with the key of
embedded texts is refused. -/
theorem not_always_read_back :
    ¬ ∀ (c : Client) (channel : String) (headers : Headers) (body : List UInt8)
      (members : Members), Payload.read headers body = .ok members → HasWholeNumbers members →
        Json.recordOfBytes? (c.postRequest channel members).body =
          some (members.set "channel" (.text channel)) := by
  intro h
  have hone : Json.IsInteger 1 := ⟨by decide, by decide⟩
  have htwo : Json.IsInteger 2 := ⟨by decide, by decide⟩
  have hinner : (Json.object [(Document.embeddingKey, .int 2), ("b", .int 1)]).IsWhole :=
    Json.isWhole_object (by simp [Json.isWhole_int hone, Json.isWhole_int htwo])
  have hwhole : HasWholeNumbers shadow := by simp [HasWholeNumbers, shadow, hinner]
  obtain ⟨text, hrecord, -⟩ := Payload.exists_text_of_read read_shadowBody
  obtain ⟨hascending, hregular⟩ := Json.isRegular_of_recordOfText? hrecord
  obtain ⟨-, hfits⟩ := (recordOfBytes?_posted _ hascending hregular hwhole).1
    (h ⟨"xoxb-test", "", 0, 20000⟩ "C1" [] shadowBody shadow read_shadowBody hwhole)
  exact (hfits _ List.mem_cons_self (by decide)).2 _ _ (.self _)

end Client

end ChannelRelay
