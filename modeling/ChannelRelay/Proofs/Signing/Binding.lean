import ChannelRelay.Proofs.Signing.Acceptance
import ChannelRelay.Proofs.Text.Cut
import ChannelRelay.Proofs.Text.Hex

/-!
# What a signature binds

The signed bytes tell the timestamp and the body apart, whatever the body is: no timestamp is
written with a colon, so the second colon ends it (`message_inj`).  Two signatures under one
secret are therefore equal only for one timestamp and one body, or if two messages have one
keyed digest (`signature_binds`).
-/

namespace ChannelRelay.Signature

/-- Two messages whose keyed digests under a secret are the same. -/
def Collide (secret : String) (first second : List UInt8) : Prop :=
  first ≠ second ∧
    Sha256.hmac (Utf8.encode secret) first = Sha256.hmac (Utf8.encode secret) second

variable {secret : String} {timestamp timestamp' : Int64} {body body' : List UInt8}

/-- No byte of a written number is a colon. -/
theorem colon_not_mem (n : Int) : 0x3A ∉ Utf8.encode (toString n) := by
  intro hmem
  have hcolon : ':' ∈ (toString n).toList := Utf8.mem_of_mem_encode (by decide) hmem
  exact absurd ((Decimal.denotes_toString n).mem hcolon) (by decide)

theorem message_eq (timestamp : Int64) (body : List UInt8) :
    message timestamp body =
      Utf8.encode "v0:" ++ (Utf8.encode (toString timestamp.toInt) ++ 0x3A :: body) := by
  simp only [message, version, Utf8.encode, String.toList_append, List.flatMap_append]
  simp [String.utf8EncodeChar]

/-- The signed bytes tell the timestamp and the body. -/
theorem message_inj (h : message timestamp body = message timestamp' body') :
    timestamp = timestamp' ∧ body = body' := by
  rw [message_eq, message_eq] at h
  obtain ⟨hwritten, hbody⟩ :=
    Cut.append_cons_inj (colon_not_mem _) (colon_not_mem _) (List.append_cancel_left h)
  have hdenotes := Decimal.denotes_toString timestamp.toInt
  rw [Utf8.encode_inj hwritten] at hdenotes
  exact ⟨Int64.toInt_inj.1 (hdenotes.unique (Decimal.denotes_toString _)), hbody⟩

/-- Equal signatures are of one timestamp and one body, or of messages that collide. -/
theorem sign_inj_or_collide (h : sign secret timestamp body = sign secret timestamp' body') :
    (timestamp = timestamp' ∧ body = body') ∨
      Collide secret (message timestamp body) (message timestamp' body') := by
  by_cases hsame : message timestamp body = message timestamp' body'
  · exact Or.inl (message_inj hsame)
  · exact Or.inr ⟨hsame, Hex.text_inj ((String.append_right_inj _).1 h)⟩

/-- Under one secret, equal signatures are of one timestamp and one body, or two different messages
have one keyed digest.  So two requests that are accepted with one signature have the same time
and the same body, or else their messages collide. -/
theorem signature_binds (secret : String) :
    (∀ timestamp timestamp' body body',
      sign secret timestamp body = sign secret timestamp' body' →
        (timestamp = timestamp' ∧ body = body') ∨
          Collide secret (message timestamp body) (message timestamp' body')) ∧
    ∀ given headers headers' body body' now now',
      headers.Carries signatureHeader given → headers'.Carries signatureHeader given →
      verify secret headers body now = true → verify secret headers' body' now' = true →
        ∃ timestamp timestamp', Dates headers timestamp ∧ Dates headers' timestamp' ∧
          ((timestamp = timestamp' ∧ body = body') ∨
            Collide secret (message timestamp body) (message timestamp' body')) := by
  refine ⟨fun _ _ _ _ => sign_inj_or_collide, ?_⟩
  intro given headers headers' body body' now now' hgiven hgiven' hverify hverify'
  obtain ⟨timestamp, hdates, -, hsigned⟩ := verify_eq_true_iff.1 hverify
  obtain ⟨timestamp', hdates', -, hsigned'⟩ := verify_eq_true_iff.1 hverify'
  refine ⟨timestamp, timestamp', hdates, hdates', sign_inj_or_collide ?_⟩
  rw [hsigned.unique hgiven, hsigned'.unique hgiven']

/-- A signature that is seen twice, with other fields behind it and by another clock. -/
theorem signature_seen_twice :
    let headers := signed "key" 5 [0x3A] ++ []
    let headers' := signed "key" 5 [0x3A] ++ [⟨"x-slack-signature", []⟩]
    verify "key" headers [0x3A] 0 = true ∧ verify "key" headers' [0x3A] 305 = true ∧
      ∃ timestamp timestamp', Dates headers timestamp ∧ Dates headers' timestamp' ∧
        ((timestamp = timestamp' ∧ [0x3A] = [(0x3A : UInt8)]) ∨
          Collide "key" (message timestamp [0x3A]) (message timestamp' [0x3A])) := by
  intro headers headers'
  obtain ⟨hsigned, hdecimal⟩ := carries_signed "key" 5 [0x3A] []
  obtain ⟨hsigned', hdecimal'⟩ := carries_signed "key" 5 [0x3A] [⟨"x-slack-signature", []⟩]
  have hverify : verify "key" headers [0x3A] 0 = true :=
    verify_eq_true_iff.2 ⟨5, dates_of_decimal hdecimal, by decide, hsigned⟩
  have hverify' : verify "key" headers' [0x3A] 305 = true :=
    verify_eq_true_iff.2 ⟨5, dates_of_decimal hdecimal', by decide, hsigned'⟩
  exact ⟨hverify, hverify',
    (signature_binds "key").2 _ _ _ _ _ _ _ hsigned hsigned' hverify hverify'⟩

end ChannelRelay.Signature
