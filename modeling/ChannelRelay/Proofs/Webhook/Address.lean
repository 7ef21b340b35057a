import ChannelRelay.Proofs.Text.Cut
import ChannelRelay.Proofs.Text.Percent
import ChannelRelay.Webhook.Address

/-!
# Written addresses

A path has two segments exactly if it is written as `/p/<first>/<second>`, with one more slash or
without it (`segments?_eq_some_iff`).  A URL is written without escaping what stands in the
address, so it leads back to its address exactly if the name and the token are plain: not empty,
without a slash, and without an escape (`url_leads_back_iff`).
-/

namespace ChannelRelay.Address

/-- A text that can be written as a segment of a path. -/
def IsSegment (text : String) : Prop :=
  text ≠ "" ∧ '/' ∉ text.toList

/-- A segment that stands for itself. -/
def Plain (text : String) : Prop :=
  IsSegment text ∧ Percent.EscapeFree text

/-! ## Cutting at slashes -/

theorem cutSegment_of_free {segment : List Char} (h : '/' ∉ segment) :
    cutSegment segment = (segment, none) := by
  have hall := Cut.ne_of_not_mem h
  rw [cutSegment, List.takeWhile_eq_self_iff.2 hall, List.dropWhile_eq_nil_iff.2 hall]

theorem cutSegment_append {segment rest : List Char} (h : '/' ∉ segment) :
    cutSegment (segment ++ '/' :: rest) = (segment, some rest) := by
  rw [cutSegment, Cut.takeWhile_append h (Or.inr ⟨rest, rfl⟩),
    Cut.dropWhile_append h (Or.inr ⟨rest, rfl⟩)]

/-- Either no slash stands in the characters, or they are cut at the first one. -/
theorem cutSegment_cases (cs : List Char) :
    ('/' ∉ cs ∧ cutSegment cs = (cs, none)) ∨
      ∃ segment rest, '/' ∉ segment ∧ cs = segment ++ '/' :: rest ∧
        cutSegment cs = (segment, some rest) := by
  by_cases h : '/' ∈ cs
  · right
    obtain ⟨segment, rest, rfl, hfree⟩ := List.eq_append_cons_of_mem h
    exact ⟨segment, rest, hfree, rfl, cutSegment_append hfree⟩
  · exact Or.inl ⟨h, cutSegment_of_free h⟩

/-! ## The two segments -/

theorem isSegment_iff {text : String} : IsSegment text ↔ text.toList ≠ [] ∧ '/' ∉ text.toList := by
  rw [IsSegment, Ne, Ne, String.toList_eq_nil_iff]

theorem segments?_of_cut {path : String} {rest first rest' second : List Char}
    {last : Option (List Char)} (hpath : path.toList = '/' :: 'p' :: '/' :: rest)
    (hfirst : cutSegment rest = (first, some rest'))
    (hsecond : cutSegment rest' = (second, last)) :
    segments? path =
      if first.isEmpty || second.isEmpty || last.any (fun rest => !rest.isEmpty) then none
      else some (String.ofList first, String.ofList second) := by
  simp only [segments?, hpath, hfirst, hsecond]

/-- A path has two segments exactly if it is written as two segments. -/
theorem segments?_eq_some_iff {path first second : String} :
    segments? path = some (first, second) ↔
      IsSegment first ∧ IsSegment second ∧
        (path = "/p/" ++ first ++ "/" ++ second ∨
          path = "/p/" ++ first ++ "/" ++ second ++ "/") := by
  simp only [isSegment_iff, ← String.toList_inj, String.toList_append]
  constructor
  · intro h
    unfold segments? at h
    split at h
    · rename_i rest hpath
      rcases cutSegment_cases rest with ⟨-, hcut⟩ | ⟨xs, rest', hxs, rfl, hcut⟩
      · rw [hcut] at h
        exact absurd h (by simp)
      · rw [hcut] at h
        dsimp only at h
        rcases cutSegment_cases rest' with ⟨hys, hcut'⟩ | ⟨ys, last, hys, rfl, hcut'⟩
        · rw [hcut'] at h
          dsimp only at h
          split at h
          · exact absurd h (by simp)
          · rename_i hfull
            obtain ⟨rfl, rfl⟩ := Prod.mk.inj (Option.some.inj h)
            simp only [Option.any_none, Bool.or_false, Bool.or_eq_true, List.isEmpty_iff,
              not_or] at hfull
            simp only [String.toList_ofList]
            exact ⟨⟨hfull.1, hxs⟩, ⟨hfull.2, hys⟩, Or.inl (hpath.trans (by simp))⟩
        · rw [hcut'] at h
          dsimp only at h
          split at h
          · exact absurd h (by simp)
          · rename_i hfull
            obtain ⟨rfl, rfl⟩ := Prod.mk.inj (Option.some.inj h)
            simp only [Option.any_some, Bool.or_eq_true, List.isEmpty_iff, not_or,
              Bool.not_eq_true', Bool.not_eq_false] at hfull
            obtain ⟨⟨hxs', hys'⟩, rfl⟩ := hfull
            simp only [String.toList_ofList]
            exact ⟨⟨hxs', hxs⟩, ⟨hys', hys⟩, Or.inr (hpath.trans (by simp))⟩
    · exact absurd h (by simp)
  · rintro ⟨⟨hfirst, hfirst'⟩, ⟨hsecond, hsecond'⟩, hpath | hpath⟩
    · rw [segments?_of_cut (hpath.trans (by simp)) (cutSegment_append hfirst')
        (cutSegment_of_free hsecond'), if_neg (by simp_all)]
      simp
    · have hrest : path.toList =
          '/' :: 'p' :: '/' :: (first.toList ++ '/' :: (second.toList ++ '/' :: [])) :=
        hpath.trans (by simp)
      rw [segments?_of_cut hrest (cutSegment_append hfirst') (cutSegment_append hsecond'),
        if_neg (by simp_all)]
      simp

/-! ## Addresses -/

theorem ofPath?_eq_some_iff {path : String} {a : Address} :
    ofPath? path = some a ↔
      ∃ first second, segments? path = some (first, second) ∧
        decoded? first = some a.channelName ∧ decoded? second = some a.token := by
  obtain ⟨name, token⟩ := a
  simp only [ofPath?, Option.bind_eq_bind, Option.bind_eq_some_iff, Prod.exists, Option.pure_def,
    Option.some.injEq, mk.injEq]
  constructor
  · rintro ⟨first, second, hsegments, _, hfirst, _, hsecond, rfl, rfl⟩
    exact ⟨first, second, hsegments, hfirst, hsecond⟩
  · rintro ⟨first, second, hsegments, hfirst, hsecond⟩
    exact ⟨first, second, hsegments, name, hfirst, token, hsecond, rfl, rfl⟩

/-- A segment stands for itself exactly if no escape stands in it. -/
theorem decoded?_eq_self_iff {segment : String} :
    decoded? segment = some segment ↔ Percent.EscapeFree segment := by
  rw [decoded?, Utf8.decode?_eq_some_iff, Percent.decode_encode_eq_iff]

theorem toList_path (a : Address) :
    a.path.toList =
      '/' :: 'p' :: '/' :: (a.channelName.toList ++ '/' :: (a.token.toList ++ ['/'])) := by
  simp [path]

/-- The path that is written for an address has two segments exactly if neither is empty and no
slash stands in them; they are then the name and the token. -/
theorem segments?_path_iff {a : Address} {first second : String} :
    segments? a.path = some (first, second) ↔
      (IsSegment a.channelName ∧ IsSegment a.token) ∧ first = a.channelName ∧
        second = a.token := by
  rw [segments?_eq_some_iff]
  constructor
  · rintro ⟨hfirst, hsecond, hpath⟩
    have hnone : first.toList.count '/' = 0 := List.count_eq_zero.2 hfirst.2
    have hnone' : second.toList.count '/' = 0 := List.count_eq_zero.2 hsecond.2
    -- There are two slashes after the start of the path, so none stands in the name or the token.
    have hslashes : a.path.toList.count '/' =
        a.channelName.toList.count '/' + a.token.toList.count '/' + 4 := by
      rw [toList_path]
      simp [Nat.add_assoc]
    rcases hpath with hpath | hpath
    · have hthree : a.path.toList.count '/' = 3 := by
        rw [hpath]
        simp [hnone, hnone']
      omega
    · have hfour : a.path.toList.count '/' = 4 := by
        rw [hpath]
        simp [hnone, hnone']
      have hname : '/' ∉ a.channelName.toList := List.count_eq_zero.1 (by omega)
      have hwritten : a.channelName.toList ++ '/' :: (a.token.toList ++ ['/']) =
          first.toList ++ '/' :: (second.toList ++ ['/']) := by
        simpa [toList_path] using congrArg String.toList hpath
      obtain ⟨hsame, hrest⟩ := Cut.append_cons_inj hname hfirst.2 hwritten
      obtain rfl : a.channelName = first := String.toList_inj.1 hsame
      obtain rfl : a.token = second := String.toList_inj.1 (List.append_cancel_right hrest)
      exact ⟨⟨hfirst, hsecond⟩, rfl, rfl⟩
  · rintro ⟨⟨hname, htoken⟩, rfl, rfl⟩
    exact ⟨hname, htoken, Or.inr rfl⟩

/-- A written path leads back to its address exactly if the name and the token are plain. -/
theorem ofPath?_path_iff {a : Address} :
    ofPath? a.path = some a ↔ Plain a.channelName ∧ Plain a.token := by
  rw [ofPath?_eq_some_iff]
  constructor
  · rintro ⟨first, second, hsegments, hname, htoken⟩
    obtain ⟨⟨hname', htoken'⟩, rfl, rfl⟩ := segments?_path_iff.1 hsegments
    exact ⟨⟨hname', decoded?_eq_self_iff.1 hname⟩, htoken', decoded?_eq_self_iff.1 htoken⟩
  · rintro ⟨⟨hname, hname'⟩, htoken, htoken'⟩
    exact ⟨_, _, segments?_path_iff.2 ⟨⟨hname, htoken⟩, rfl, rfl⟩, decoded?_eq_self_iff.2 hname',
      decoded?_eq_self_iff.2 htoken'⟩

/-- Under every domain, what follows the domain in the URL that is written for an address is read
as this address exactly if the name and the token are not empty, no slash stands in them, and no
percent sign that two hexadecimal digits follow. -/
theorem url_leads_back_iff (domain : String) (a : Address) :
    ∃ path, url domain a = "https://" ++ domain ++ path ∧
      (ofPath? path = some a ↔ Plain a.channelName ∧ Plain a.token) :=
  ⟨a.path, rfl, ofPath?_path_iff⟩

/-- A name with an escape in it: its URL leads to another name. -/
theorem ofPath?_escape : ofPath? (path ⟨"ci%41", "t"⟩) = some ⟨"ciA", "t"⟩ := by
  decide +kernel

/-- Not every URL leads back to its address, even if neither the name nor the token is empty. -/
theorem not_always_back :
    ¬ ∀ (domain : String) (a : Address), a.channelName ≠ "" → a.token ≠ "" →
      ∃ path, url domain a = "https://" ++ domain ++ path ∧ ofPath? path = some a := by
  intro h
  obtain ⟨written, hurl, hback⟩ := h "relay.example.com" ⟨"ci%41", "t"⟩ (by decide) (by decide)
  obtain rfl : path ⟨"ci%41", "t"⟩ = written := String.append_right_inj _ |>.1 hurl
  rw [ofPath?_escape] at hback
  exact absurd hback (by decide)

end ChannelRelay.Address
