import ChannelRelay.Proofs.Text.Serialize
import ChannelRelay.Slash.Command
import Mathlib.Data.List.Induction

/-!
# The form of a slash command

A slash command is read from a list of fields in which the last value of a key counts and unknown
keys do not.  So the four fields of a command come through a form as they are, in whatever order
they stand and whatever other fields stand between them (`SlashForm.ofBody_serialize`).
-/

namespace ChannelRelay

namespace Form

variable {key value : String} {fields others before after : List Field}

/-- The value that a key is given last; it is empty where the key is given none. -/
inductive GivenLast (key : String) : List Field → String → Prop where
  | last {before after : List Field} {value : String} (hlast : ∀ f ∈ after, f.1 ≠ key) :
      GivenLast key (before ++ (key, value) :: after) value
  | missing {fields : List Field} (hnone : ∀ f ∈ fields, f.1 ≠ key) : GivenLast key fields ""

/-! ## The last value -/

theorem valuesOf_append (key : String) (fields others : List Field) :
    valuesOf key (fields ++ others) = valuesOf key fields ++ valuesOf key others := by
  rw [valuesOf, List.filter_append, List.map_append]
  rfl

theorem valuesOf_eq_nil (h : ∀ f ∈ fields, f.1 ≠ key) : valuesOf key fields = [] := by
  rw [valuesOf, List.filter_eq_nil_iff.2 fun f hf => by simpa using h f hf]
  rfl

theorem lastOf_of_missing (hnone : ∀ f ∈ fields, f.1 ≠ key) : lastOf key fields = "" := by
  rw [lastOf, valuesOf_eq_nil hnone]
  rfl

theorem lastOf_of_last (hlast : ∀ f ∈ after, f.1 ≠ key) :
    lastOf key (before ++ (key, value) :: after) = value := by
  have hvalues : valuesOf key ((key, value) :: after) = value :: valuesOf key after := by
    simp [valuesOf]
  rw [lastOf, valuesOf_append, hvalues, valuesOf_eq_nil hlast, List.getLastD_concat]

/-- A field of another key does not count. -/
theorem GivenLast.concat (h : GivenLast key fields value) {f : Field} (hkey : f.1 ≠ key) :
    GivenLast key (fields ++ [f]) value := by
  have hother : ∀ g ∈ [f], g.1 ≠ key := List.forall_mem_singleton.2 hkey
  cases h with
  | last hlast =>
      rw [List.append_assoc, List.cons_append]
      exact .last (List.forall_mem_append.2 ⟨hlast, hother⟩)
  | missing hnone => exact .missing (List.forall_mem_append.2 ⟨hnone, hother⟩)

/-- Every list of fields gives a key one last value. -/
theorem exists_givenLast (key : String) (fields : List Field) :
    ∃ value, GivenLast key fields value := by
  -- The induction is from the end, where the value that counts stands first.
  induction fields using List.reverseRecOn with
  | nil => exact ⟨"", .missing (by simp)⟩
  | append_singleton fields f ih =>
      by_cases hkey : f.1 = key
      · exact ⟨f.2, hkey ▸ .last (by simp)⟩
      · obtain ⟨value, hvalue⟩ := ih
        exact ⟨value, hvalue.concat hkey⟩

/-- What is read for a key is the value that it is given last. -/
theorem lastOf_eq_iff : lastOf key fields = value ↔ GivenLast key fields value := by
  have hread : ∀ {v}, GivenLast key fields v → lastOf key fields = v := by
    intro v h
    cases h with
    | last hlast => exact lastOf_of_last hlast
    | missing hnone => exact lastOf_of_missing hnone
  constructor
  · rintro rfl
    obtain ⟨value, hvalue⟩ := exists_givenLast key fields
    rw [hread hvalue]
    exact hvalue
  · exact hread

/-- Where a key has one value only, the order of the fields does not matter. -/
theorem lastOf_of_perm (hperm : fields.Perm (others ++ before))
    (hvalue : valuesOf key others = [value]) (hnone : ∀ f ∈ before, f.1 ≠ key) :
    lastOf key fields = value := by
  have hvalues : (valuesOf key fields).Perm [value] := by
    have h := (hperm.filter (·.1 == key)).map Prod.snd
    change (valuesOf key fields).Perm (valuesOf key (others ++ before)) at h
    rwa [valuesOf_append, hvalue, valuesOf_eq_nil hnone] at h
  rw [lastOf, List.perm_singleton.1 hvalues]
  rfl

end Form

namespace SlashForm

/-- The fields of a slash command. -/
def fields (form : SlashForm) : List Form.Field :=
  [("command", form.command), ("channel_id", form.channelId), ("channel_name", form.channelName),
    ("text", form.text)]

/-- No two fields of a command have the same key. -/
theorem valuesOf_fields {form : SlashForm} {f : Form.Field} (hf : f ∈ form.fields) :
    Form.valuesOf f.1 form.fields = [f.2] := by
  simp only [fields, List.mem_cons, List.not_mem_nil, or_false] at hf
  rcases hf with rfl | rfl | rfl | rfl <;> rfl

/-- A command is read from the last values of its keys. -/
theorem ofBody_eq_iff {body : List UInt8} {form : SlashForm} :
    ofBody body = form ↔ ∀ f ∈ form.fields, Form.lastOf f.1 (Form.parse body) = f.2 := by
  obtain ⟨command, channelId, channelName, text⟩ := form
  simp [ofBody, fields]

/-- A list of fields that is sent as a form is read as the command whose fields have the values
that their keys are given last.  A command is read from its own four fields, in any order and
among any others. -/
theorem ofBody_serialize (sent : List Form.Field) (form : SlashForm) :
    let body := Form.serialize sent
    (ofBody body = form ↔
        Form.GivenLast "command" sent form.command ∧
          Form.GivenLast "channel_id" sent form.channelId ∧
          Form.GivenLast "channel_name" sent form.channelName ∧
          Form.GivenLast "text" sent form.text) ∧
      ∀ others, sent.Perm (form.fields ++ others) → (∀ f ∈ others, f.1 ∉ form.fields.map Prod.fst) →
        ofBody body = form := by
  intro body
  refine ⟨?_, fun others hperm hothers => ?_⟩
  · rw [ofBody_eq_iff, Form.parse_serialize]
    simp [Form.lastOf_eq_iff, fields]
  · rw [ofBody_eq_iff, Form.parse_serialize]
    intro f hf
    refine Form.lastOf_of_perm hperm (valuesOf_fields hf) fun g hg hsame => hothers g hg ?_
    rw [hsame]
    exact List.mem_map_of_mem hf

/-- A revocation in reversed order, with characters that a form writes in another way, an empty
key, and a key that stands twice. -/
theorem ofBody_serialize_scattered :
    let form : SlashForm := ⟨"/hookrelay-revoke", "C1", "b\u00FCro", "a b&text=1+1%41"⟩
    let others : List Form.Field := [("token", "x"), ("", ""), ("token", "y=z")]
    let sent := form.fields.reverse ++ others
    sent.Perm (form.fields ++ others) ∧ (∀ f ∈ others, f.1 ∉ form.fields.map Prod.fst) ∧
      ofBody (Form.serialize sent) = form := by
  intro form others sent
  have hperm : sent.Perm (form.fields ++ others) := form.fields.reverse_perm.append_right others
  have hothers : ∀ f ∈ others, f.1 ∉ form.fields.map Prod.fst := by decide
  exact ⟨hperm, hothers, (ofBody_serialize sent form).2 others hperm hothers⟩

end SlashForm

end ChannelRelay
