import ChannelRelay.Text.Utf8

/-!
# Keys

Credentials are filed under the name of their channel and a version.  Keys are
ordered by the UTF-8 bytes of the name and then by version, which is a strict
total order.
-/

namespace ChannelRelay

/-- What a record is filed under. -/
structure Key where
  name : String
  version : Int32
deriving DecidableEq, Repr

namespace Key

/-- Whether a key comes before another one. -/
def Before (a b : Key) : Prop :=
  Utf8.encode a.name < Utf8.encode b.name ∨ (a.name = b.name ∧ a.version < b.version)

instance (a b : Key) : Decidable (a.Before b) :=
  inferInstanceAs (Decidable (_ ∨ _))

/-- The least version under a name. -/
def first (name : String) : Key := ⟨name, Int32.minValue⟩

theorem not_before_self (a : Key) : ¬ a.Before a := by
  rintro (h | ⟨_, h⟩)
  · exact List.lt_irrefl _ h
  · exact Int32.lt_irrefl h

theorem Before.trans {a b c : Key} (hab : a.Before b) (hbc : b.Before c) : a.Before c := by
  rcases hab with hab | ⟨hab, hv⟩
  · rcases hbc with hbc | ⟨hbc, _⟩
    · exact Or.inl (List.lt_trans hab hbc)
    · exact Or.inl (hbc ▸ hab)
  · rcases hbc with hbc | ⟨hbc, hw⟩
    · exact Or.inl (hab ▸ hbc)
    · exact Or.inr ⟨hab.trans hbc, Int32.lt_trans hv hw⟩

/-- Of two different keys one comes before the other. -/
theorem before_of_not_before {a b : Key} (hne : a ≠ b) (h : ¬ a.Before b) : b.Before a := by
  by_cases hname : a.name = b.name
  · refine Or.inr ⟨hname.symm, ?_⟩
    have hle : b.version ≤ a.version := by
      rw [← Int32.not_lt]
      exact fun hlt => h (Or.inr ⟨hname, hlt⟩)
    refine Int32.lt_of_le_of_ne hle ?_
    intro hv
    exact hne (by cases a; cases b; simp_all)
  · refine Or.inl ?_
    have hle : Utf8.encode b.name ≤ Utf8.encode a.name := fun hlt => h (Or.inl hlt)
    rcases List.le_iff_lt_or_eq.1 hle with hlt | heq
    · exact hlt
    · exact absurd (Utf8.encode_inj heq).symm hname

end Key

end ChannelRelay
