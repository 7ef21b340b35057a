import ChannelRelay.Proofs.Counters
import ChannelRelay.Slash.Name

/-!
# The label values of commands

A command is counted under its own text if it begins as the names of the relay's commands do; all
other commands are counted together.  So there is one line for each text that was given and begins
like this, and of such texts there may be any number.  The lines are those of the relay's own five
commands and of the rest exactly if no other command begins as they do (`lines_counted`).
-/

namespace ChannelRelay.Metrics

/-- A command that begins as the names of the relay's commands do. -/
def IsNamed (command : String) : Prop := commandStart.toList <+: command.toList

instance : DecidablePred IsNamed := fun command =>
  inferInstanceAs (Decidable (commandStart.toList <+: command.toList))

theorem commandValue_eq (command : String) :
    commandValue command = if IsNamed command then command else "other" := by
  rw [commandValue]
  exact if_congr List.isPrefixOf_iff_prefix rfl rfl

theorem not_isNamed_other : ¬ IsNamed "other" := by decide

/-- The counters after some commands. -/
def counted (commands : List String) : Metrics :=
  zero.after (commands.map fun command => (.commands, commandValue command))

variable {commands : List String}

theorem ordered_counted (commands : List String) : (counted commands).commands.Ordered :=
  ordered_after ordered_zero _ .commands

theorem mem_labels_counted {label : String} :
    label ∈ (counted commands).commands.labels ↔
      label ∈ commands ∧ IsNamed label ∨ label = "other" ∧ ∃ c ∈ commands, ¬ IsNamed c := by
  have hcounted : label ∈ (counted commands).commands.labels ↔
      ∃ c ∈ commands, commandValue c = label := by
    refine (mem_labels_after .commands).trans ?_
    simp [zero, of, Counts.labels]
  rw [hcounted]
  constructor
  · rintro ⟨c, hc, rfl⟩
    rw [commandValue_eq]
    split
    · rename_i hnamed
      exact Or.inl ⟨hc, hnamed⟩
    · rename_i hother
      exact Or.inr ⟨rfl, c, hc, hother⟩
  · rintro (⟨hc, hnamed⟩ | ⟨rfl, c, hc, hother⟩)
    · exact ⟨label, hc, by rw [commandValue_eq, if_pos hnamed]⟩
    · exact ⟨c, hc, by rw [commandValue_eq, if_neg hother]⟩

/-- The commands that are counted under their own texts. -/
def named (commands : List String) : Finset String := commands.toFinset.filter IsNamed

theorem mem_named {command : String} :
    command ∈ named commands ↔ command ∈ commands ∧ IsNamed command := by
  rw [named, Finset.mem_filter, List.mem_toFinset]

/-- There is a line for each text that is counted on its own, and one for the rest. -/
theorem length_lines_counted (commands : List String) :
    ((counted commands).familyLines .commands).length =
      (named commands).card + if ∃ c ∈ commands, ¬ IsNamed c then 1 else 0 := by
  have hlength : ((counted commands).familyLines .commands).length =
      (counted commands).commands.labels.toFinset.card := by
    rw [List.toFinset_card_of_nodup (ordered_counted commands).nodup_labels, familyLines,
      List.length_map, Counts.labels, List.length_map]
    rfl
  rw [hlength]
  split
  · rename_i hother
    have hlabels : (counted commands).commands.labels.toFinset =
        insert "other" (named commands) := by
      ext label
      rw [List.mem_toFinset, mem_labels_counted, Finset.mem_insert, mem_named]
      tauto
    have hnew : "other" ∉ named commands := fun h => not_isNamed_other (mem_named.1 h).2
    rw [hlabels, Finset.card_insert_of_notMem hnew]
  · rename_i hnone
    have hlabels : (counted commands).commands.labels.toFinset = named commands := by
      ext label
      rw [List.mem_toFinset, mem_labels_counted, mem_named]
      simp only [hnone, and_false, or_false]
    rw [hlabels, Nat.add_zero]

/-- A command is carried out exactly if it has one of the five names. -/
theorem isSome_ofText?_iff {command : String} :
    (SlashName.ofText? command).isSome ↔ ∃ name : SlashName, name.text = command := by
  rw [SlashName.ofText?, List.find?_isSome]
  constructor
  · rintro ⟨name, -, hname⟩
    exact ⟨name, by simpa using hname⟩
  · rintro ⟨name, rfl⟩
    exact ⟨name, by cases name <;> decide, by simp⟩

/-- There are five names. -/
theorem card_named_le (h : ∀ c ∈ commands, IsNamed c → (SlashName.ofText? c).isSome) :
    (named commands).card ≤ 5 := by
  have hsub : named commands ⊆ (SlashName.all.map SlashName.text).toFinset := by
    intro c hc
    obtain ⟨hmem, hnamed⟩ := mem_named.1 hc
    obtain ⟨name, rfl⟩ := isSome_ofText?_iff.1 (h c hmem hnamed)
    rw [List.mem_toFinset]
    exact List.mem_map_of_mem (by cases name <;> decide)
  exact (Finset.card_le_card hsub).trans (List.toFinset_card_le _)

/-- After any commands: the counters add up to the number of commands; there is one line for each
text that begins as the relay's commands do, and one for all others; and the lines are those of
commands that are carried out, and of the rest, exactly if no other command begins as these do.
Then there are at most six lines. -/
theorem lines_counted (commands : List String) :
    (counted commands).commands.total = commands.length ∧
      ((counted commands).familyLines .commands).length =
        (named commands).card + (if ∃ c ∈ commands, ¬ IsNamed c then 1 else 0) ∧
      ((∀ label ∈ (counted commands).commands.labels,
          label = "other" ∨ (SlashName.ofText? label).isSome) ↔
        ∀ c ∈ commands, IsNamed c → (SlashName.ofText? c).isSome) ∧
      ((∀ c ∈ commands, IsNamed c → (SlashName.ofText? c).isSome) →
        ((counted commands).familyLines .commands).length ≤ 6) := by
  refine ⟨?_, length_lines_counted commands, ?_, fun hknown => ?_⟩
  · refine (total_after zero _ .commands).trans ?_
    rw [List.countP_eq_length.2 (by simp), List.length_map]
    exact Nat.zero_add _
  · constructor
    · intro hlabels c hc hnamed
      refine (hlabels c (mem_labels_counted.2 (Or.inl ⟨hc, hnamed⟩))).resolve_left ?_
      rintro rfl
      exact not_isNamed_other hnamed
    · intro hknown label hlabel
      rcases mem_labels_counted.1 hlabel with ⟨hc, hnamed⟩ | ⟨rfl, -⟩
      · exact Or.inr (hknown label hc hnamed)
      · exact Or.inl rfl
  · have hcard := card_named_le hknown
    rw [length_lines_counted]
    split <;> omega

/-- The five commands, a command of another application, and one that only begins as the five do. -/
def sevenCommands : List String :=
  SlashName.all.map SlashName.text ++ ["/weather", "/hookrelay-list"]

/-- Seven commands give seven lines. -/
theorem lines_not_bounded :
    ¬ ∀ commands : List String,
      ((counted commands).familyLines .commands).length ≤ 6 ∧
        (∀ label ∈ (counted commands).commands.labels,
          label = "other" ∨ ∃ name : SlashName, label = name.text) ∧
        (counted commands).commands.total = commands.length := by
  intro h
  have hseven : ((counted sevenCommands).familyLines .commands).length = 7 := by
    rw [length_lines_counted]
    decide +kernel
  have hbound := (h sevenCommands).1
  omega

end ChannelRelay.Metrics
