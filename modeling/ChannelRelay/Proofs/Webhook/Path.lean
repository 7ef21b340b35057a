import ChannelRelay.Proofs.Text.Spelling
import ChannelRelay.Proofs.Webhook.Address

/-!
# Webhook paths

Two readers decide on the same shape of a path, `/p/<first>/<second>` with at most one more slash:
the one that takes the address from it and the one that hides the token in it.  The first accepts
exactly the paths of this shape whose segments stand for texts, and every spelling of an address
is read as the address (`ofPath?_grammar`).  What the second shows depends on the first segment
alone, and it shows a path as it is only if the path is not taken for an address
(`masked_by_first`).
-/

namespace ChannelRelay.Address

/-- A path with two segments: what is written between three slashes and the end, where one more
slash may stand. -/
def HasSegments (path first second : String) : Prop :=
  IsSegment first ∧ IsSegment second ∧
    (path = "/p/" ++ first ++ "/" ++ second ∨ path = "/p/" ++ first ++ "/" ++ second ++ "/")

/-- A segment stands for a text: its bytes stand for those of the text. -/
def Denotes (segment text : String) : Prop :=
  Percent.StandsFor (Utf8.encode segment) (Utf8.encode text)

/-- A path that looks like that of a webhook. -/
def IsUnderPrefix (path : String) : Prop :=
  "/p/".toList <+: path.toList

variable {path first second : String} {a : Address}

/-! ## Reading the address -/

theorem decoded?_eq_some_iff {segment text : String} :
    decoded? segment = some text ↔ Denotes segment text := by
  rw [decoded?, Utf8.decode?_eq_some_iff, Percent.decode_eq_iff]
  rfl

/-- An address is read exactly from the two segments that stand for its parts. -/
theorem ofPath?_eq_some_iff_denotes :
    ofPath? path = some a ↔
      ∃ first second, HasSegments path first second ∧ Denotes first a.channelName ∧
        Denotes second a.token := by
  rw [ofPath?_eq_some_iff]
  refine exists_congr fun first => exists_congr fun second => ?_
  rw [segments?_eq_some_iff, decoded?_eq_some_iff, decoded?_eq_some_iff]
  rfl

/-- A spelling of a text that is not empty is a segment that stands for the text. -/
theorem isSegment_of_spells {text written : String} (htext : text ≠ "")
    (h : Percent.Spells text.toList written.toList) :
    IsSegment written ∧ Denotes written text := by
  have hne : text.toList ≠ [] := fun hnil => htext (String.toList_eq_nil_iff.1 hnil)
  refine ⟨isSegment_iff.2 ⟨h.ne_nil hne, h.slash_not_mem⟩, ?_⟩
  exact Percent.decode_eq_iff.1 (Percent.decode_encode_of_spells h)

/-- The paths that are read as an address are those of two segments that stand for its name and
its token.  So every spelling of the two, between slashes and with one more or without it, is read
as the address, and an escaped slash stays inside its segment. -/
theorem ofPath?_grammar :
    (∀ path a, ofPath? path = some a ↔
      ∃ first second, HasSegments path first second ∧ Denotes first a.channelName ∧
        Denotes second a.token) ∧
      ∀ (a : Address) (first second : String), a.channelName ≠ "" → a.token ≠ "" →
        Percent.Spells a.channelName.toList first.toList →
          Percent.Spells a.token.toList second.toList →
            ofPath? ("/p/" ++ first ++ "/" ++ second) = some a ∧
              ofPath? ("/p/" ++ first ++ "/" ++ second ++ "/") = some a := by
  refine ⟨fun path a => ofPath?_eq_some_iff_denotes, ?_⟩
  intro a first second hname htoken hfirst hsecond
  obtain ⟨hfirst, hname⟩ := isSegment_of_spells hname hfirst
  obtain ⟨hsecond, htoken⟩ := isSegment_of_spells htoken hsecond
  constructor
  · exact ofPath?_eq_some_iff_denotes.2
      ⟨first, second, ⟨hfirst, hsecond, Or.inl rfl⟩, hname, htoken⟩
  · exact ofPath?_eq_some_iff_denotes.2
      ⟨first, second, ⟨hfirst, hsecond, Or.inr rfl⟩, hname, htoken⟩

/-- A name of a slash and a character of three bytes, in escapes of both cases, and a token that
is a percent sign before two digits. -/
theorem ofPath?_escaped_slash :
    ofPath? "/p/%2f%E9%9b%91/%2541/" = some ⟨"/雑", "%41"⟩ := by
  have hname : Percent.Spells "/雑".toList "%2f%E9%9b%91".toList := by
    refine @Percent.Spells.escaped _ _ _ ["%2f".toList] ?_
      (@Percent.Spells.escaped _ _ _ ["%E9".toList, "%9b".toList, "%91".toList] ?_ .nil)
    · exact .cons ⟨_, _, rfl, ⟨by decide, by decide⟩, ⟨by decide, by decide⟩⟩ .nil
    · exact .cons ⟨_, _, rfl, ⟨by decide, by decide⟩, ⟨by decide, by decide⟩⟩
        (.cons ⟨_, _, rfl, ⟨by decide, by decide⟩, ⟨by decide, by decide⟩⟩
          (.cons ⟨_, _, rfl, ⟨by decide, by decide⟩, ⟨by decide, by decide⟩⟩ .nil))
  have htoken : Percent.Spells "%41".toList "%2541".toList := by
    refine @Percent.Spells.escaped _ _ _ ["%25".toList] ?_
      (.raw (by decide) (by decide) (.raw (by decide) (by decide) .nil))
    exact .cons ⟨_, _, rfl, ⟨by decide, by decide⟩, ⟨by decide, by decide⟩⟩ .nil
  exact (ofPath?_grammar.2 ⟨"/雑", "%41"⟩ _ _ (by decide) (by decide) hname htoken).2

/-! ## Hiding the token -/

theorem HasSegments.isUnderPrefix (h : HasSegments path first second) : IsUnderPrefix path := by
  obtain ⟨-, -, rfl | rfl⟩ := h
  · exact ⟨first.toList ++ "/".toList ++ second.toList, by simp⟩
  · exact ⟨first.toList ++ "/".toList ++ second.toList ++ "/".toList, by simp⟩

/-- Of a path with two segments the first one is shown. -/
theorem masked_of_hasSegments (h : HasSegments path first second) :
    masked path = "/p/" ++ first ++ "/****/" := by
  rw [masked, segments?_eq_some_iff.2 h]

theorem segments?_eq_none_iff :
    segments? path = none ↔ ¬ ∃ first second, HasSegments path first second := by
  rw [Option.eq_none_iff_forall_ne_some]
  constructor
  · rintro hnone ⟨first, second, h⟩
    exact hnone (first, second) (segments?_eq_some_iff.2 h)
  · rintro hnone ⟨first, second⟩ h
    exact hnone ⟨first, second, segments?_eq_some_iff.1 h⟩

/-- Of any other path that looks like that of a webhook nothing is shown. -/
theorem masked_of_malformed (hunder : IsUnderPrefix path)
    (h : ¬ ∃ first second, HasSegments path first second) : masked path = "/p/****" := by
  obtain ⟨rest, hrest⟩ := hunder
  have hpath : path.toList = '/' :: 'p' :: '/' :: rest := hrest.symm
  rw [masked, segments?_eq_none_iff.2 h]
  simp only [hpath]

/-- A path that does not look like that of a webhook is shown as it is, and it is none. -/
theorem masked_of_foreign (h : ¬ IsUnderPrefix path) :
    masked path = path ∧ ofPath? path = none := by
  have hnone : ¬ ∃ first second, HasSegments path first second := by
    rintro ⟨first, second, hsegments⟩
    exact h hsegments.isUnderPrefix
  constructor
  · rw [masked, segments?_eq_none_iff.2 hnone]
    dsimp only
    split
    · rename_i rest hpath
      exact absurd ⟨rest, hpath.symm⟩ h
    · rfl
  · rw [Option.eq_none_iff_forall_ne_some]
    intro a ha
    obtain ⟨first, second, hsegments, -⟩ := ofPath?_eq_some_iff_denotes.1 ha
    exact hnone ⟨first, second, hsegments⟩

/-- What is shown of a path that looks like that of a webhook is its first segment, if it has two,
and nothing otherwise.  So paths with the same first segment are shown alike, whatever their
second one is, every path that is read as an address is shown without its token, and a path that
is shown as it is because it does not look so is not read as an address. -/
theorem masked_by_first :
    (∀ path, IsUnderPrefix path →
      (∀ first second, HasSegments path first second →
        masked path = "/p/" ++ first ++ "/****/") ∧
      ((¬ ∃ first second, HasSegments path first second) → masked path = "/p/****")) ∧
    (∀ path path' first second second', HasSegments path first second →
      HasSegments path' first second' → masked path = masked path') ∧
    (∀ path a, ofPath? path = some a →
      ∃ first second, HasSegments path first second ∧
        masked path = "/p/" ++ first ++ "/****/") ∧
    ∀ path, ¬ IsUnderPrefix path → masked path = path ∧ ofPath? path = none := by
  refine ⟨fun path hunder => ⟨fun first second h => masked_of_hasSegments h,
    masked_of_malformed hunder⟩, ?_, ?_, fun path h => masked_of_foreign h⟩
  · intro path path' first second second' h h'
    rw [masked_of_hasSegments h, masked_of_hasSegments h']
  · intro path a h
    obtain ⟨first, second, hsegments, -⟩ := ofPath?_eq_some_iff_denotes.1 h
    exact ⟨first, second, hsegments, masked_of_hasSegments hsegments⟩

theorem hasSegments_of_free (first second : String) (hfirst : first ≠ "") (hsecond : second ≠ "")
    (hfree : '/' ∉ first.toList) (hfree' : '/' ∉ second.toList) :
    HasSegments ("/p/" ++ first ++ "/" ++ second) first second :=
  ⟨⟨hfirst, hfree⟩, ⟨hsecond, hfree'⟩, Or.inl rfl⟩

/-- A token, a token that is no text, a third segment, and a path of something else. -/
theorem masked_four_paths :
    masked "/p/ci/t0ken" = masked "/p/ci/%ff" ∧ masked "/p/ci/t0ken" = "/p/ci/****/" ∧
      (∃ first second, HasSegments "/p/ci/t0ken" first second ∧
        masked "/p/ci/t0ken" = "/p/" ++ first ++ "/****/") ∧
      masked "/p/ci/t0ken/x" = "/p/****" ∧
      (masked "/healthz" = "/healthz" ∧ ofPath? "/healthz" = none) := by
  have htoken : HasSegments "/p/ci/t0ken" "ci" "t0ken" :=
    hasSegments_of_free "ci" _ (by decide) (by decide) (by decide) (by decide)
  have hbytes : HasSegments "/p/ci/%ff" "ci" "%ff" :=
    hasSegments_of_free "ci" _ (by decide) (by decide) (by decide) (by decide)
  have hthree : ¬ ∃ first second, HasSegments "/p/ci/t0ken/x" first second :=
    segments?_eq_none_iff.1 (by decide)
  have hread : ofPath? "/p/ci/t0ken" = some ⟨"ci", "t0ken"⟩ := by decide +kernel
  have hfirst : masked "/p/ci/t0ken" = "/p/ci/****/" :=
    (masked_by_first.1 _ htoken.isUnderPrefix).1 _ _ htoken
  exact ⟨masked_by_first.2.1 _ _ _ _ _ htoken hbytes, hfirst, masked_by_first.2.2.1 _ _ hread,
    (masked_by_first.1 _ ⟨"ci/t0ken/x".toList, rfl⟩).2 hthree,
    masked_by_first.2.2.2 _ (by unfold IsUnderPrefix; decide)⟩

end ChannelRelay.Address
