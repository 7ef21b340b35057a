import ChannelRelay.Proofs.Dialogue.Transcript
import ChannelRelay.Rotation

/-!
# The search for a token that is not in use

A search draws tokens until a draw brings something else than a token in use, and it makes no more
draws than it may.  `Rotation.follows_drawing` says so for all answers.  Where the draws bring what
a script says, they are the first ones of the script, and the first of them that fails or brings a
token not in use decides (`Rotation.drawFresh_first_unused`).
-/

namespace ChannelRelay

namespace Exchange

/-- Draws with their answers. -/
def draws (drawn : List (Except GenerationError String)) : List Exchange :=
  drawn.map fun d => ⟨.draw, d⟩

theorem call_of_mem_draws {drawn : List (Except GenerationError String)} {e : Exchange}
    (he : e ∈ draws drawn) : e.call = .draw := by
  obtain ⟨_, -, rfl⟩ := List.mem_map.1 he
  rfl

end Exchange

namespace Rotation

/-- A draw in vain: it brings the token of a record. -/
def InVain {ε : Type} (inUse : List Credential) : Except ε String → Prop
  | .ok token => ∃ c ∈ inUse, c.token = token
  | .error _ => False

instance {ε : Type} (inUse : List Credential) :
    (drawn : Except ε String) → Decidable (InVain inUse drawn)
  | .ok token => inferInstanceAs (Decidable (∃ c ∈ inUse, c.token = token))
  | .error _ => inferInstanceAs (Decidable False)

/-- How a search that may make `limit` draws ends after those that it made: the last of them
decides, or all were in vain. -/
inductive Searched (inUse : List Credential) (limit : Nat) :
    List (Except GenerationError String) → Except RelayError String → Prop where
  | decided {vain : List (Except GenerationError String)} {last : Except GenerationError String}
      (hvain : ∀ d ∈ vain, InVain inUse d) (hleft : vain.length < limit)
      (hlast : ¬ InVain inUse last) :
      Searched inUse limit (vain ++ [last]) (last.mapError .tokenGeneration)
  | exhausted {vain : List (Except GenerationError String)}
      (hvain : ∀ d ∈ vain, InVain inUse d) (hlength : vain.length = limit) :
      Searched inUse limit vain (.error (.tokenGeneration .collisions))

variable {inUse : List Credential} {limit : Nat}

/-- A first draw that decides ends the search. -/
theorem Searched.first {d : Except GenerationError String} (hd : ¬ InVain inUse d) :
    Searched inUse (limit + 1) [d] (d.mapError .tokenGeneration) := by
  rw [← List.nil_append [d]]
  exact .decided (by simp) (Nat.succ_pos limit) hd

/-- A first draw in vain comes before the draws of the search that goes on. -/
theorem Searched.cons {d : Except GenerationError String}
    {drawn : List (Except GenerationError String)} {result : Except RelayError String}
    (hd : InVain inUse d) (h : Searched inUse limit drawn result) :
    Searched inUse (limit + 1) (d :: drawn) result := by
  cases h with
  | decided hvain hleft hlast =>
      exact .decided (List.forall_mem_cons.2 ⟨hd, hvain⟩) (Nat.succ_lt_succ hleft) hlast
  | exhausted hvain hlength =>
      exact .exhausted (List.forall_mem_cons.2 ⟨hd, hvain⟩) (congrArg Nat.succ hlength)

/-- A search makes nothing but draws, and it ends as these say. -/
theorem follows_drawing (inUse : List Credential) (limit : Nat) (past : List Exchange) :
    (drawFresh inUse limit).run.Follows
      (fun before call => call = .draw ∧ ∃ drawn, before = past ++ Exchange.draws drawn)
      (fun before result => ∃ drawn, before = past ++ Exchange.draws drawn ∧
        Searched inUse limit drawn result) past := by
  -- The induction is on the draws left; the ones made are added to `past`.
  induction limit generalizing past with
  | zero => exact ⟨[], (List.append_nil past).symm, .exhausted (by simp) rfl⟩
  | succ limit ih =>
      refine (Operation.follows_attempt_bind .tokenGeneration _ _).2 ?_
      refine ⟨⟨rfl, [], (List.append_nil past).symm⟩, fun d => ?_⟩
      cases d with
      | error e => exact ⟨[.error e], rfl, .first fun hvain => hvain⟩
      | ok token =>
          show ((if inUse.all (·.token != token) then pure token
            else drawFresh inUse limit : Operation String)).run.Follows _ _ _
          split
          · rename_i hall
            have hfresh : ¬ InVain inUse (.ok token : Except GenerationError String) := by
              simpa [InVain] using hall
            exact ⟨[.ok token], rfl, .first hfresh⟩
          · rename_i hall
            have hvain : InVain inUse (.ok token : Except GenerationError String) := by
              simpa [InVain] using hall
            refine (ih _).imp ?_ ?_
            · rintro before call ⟨hcall, drawn, rfl⟩
              exact ⟨hcall, .ok token :: drawn, List.append_assoc ..⟩
            · rintro before result ⟨drawn, rfl, hsearched⟩
              exact ⟨.ok token :: drawn, List.append_assoc .., hsearched.cons hvain⟩

end Rotation

/-! ## Draws from a script -/

section Script

variable {α σ : Type} {answer : (c : Call) → σ → c.Answer × σ} {s : σ}

/-- What the draw brings that comes after `n` others, if nothing but draws is asked for. -/
def comingDraw (answer : (c : Call) → σ → c.Answer × σ) (s : σ) :
    Nat → Except GenerationError String
  | 0 => (answer .draw s).1
  | n + 1 => comingDraw answer (answer .draw s).2 n

/-- The coming draws bring what a script says: tokens, or failures with their texts. -/
def Supplies (answer : (c : Call) → σ → c.Answer × σ) (s : σ)
    (script : Nat → Except String String) : Prop :=
  ∀ n, comingDraw answer s n = (script n).mapError .source

/-- The first draws of a script. -/
def firstDraws (script : Nat → Except String String) (calls : Nat) :
    List (Except GenerationError String) :=
  (List.range calls).map fun i => (script i).mapError .source

theorem firstDraws_succ (script : Nat → Except String String) (calls : Nat) :
    firstDraws script (calls + 1) =
      firstDraws script calls ++ [(script calls).mapError .source] := by
  rw [firstDraws, List.range_succ, List.map_append, List.map_singleton, firstDraws]

theorem Supplies.eq_firstDraws {script : Nat → Except String String}
    (h : Supplies answer s script) (calls : Nat) :
    (List.range calls).map (comingDraw answer s) = firstDraws script calls :=
  List.map_congr_left fun i _ => h i

/-- What the source of tokens will bring; past the end of its script it fails. -/
def Surroundings.supply (s : Surroundings) (n : Nat) : Except String String :=
  match s.tokens.drop n with
  | [] => .error "script exhausted"
  | none :: _ => .error "entropy source unavailable"
  | some token :: _ => .ok token

theorem Surroundings.supplies (s : Surroundings) : Supplies Surroundings.answer s s.supply := by
  intro n
  induction n generalizing s with
  | zero =>
      show s.draw.1 = _
      unfold draw supply
      rw [List.drop_zero]
      rcases s.tokens with - | ⟨- | token, rest⟩ <;> rfl
  | succ n ih =>
      show comingDraw Surroundings.answer s.draw.2 n = _
      rw [ih]
      unfold supply draw
      rw [List.drop_drop, Nat.add_comm]

/-- The draws of a dialogue that does nothing else are the first ones to come. -/
theorem Dialogue.eq_comingDraw_of_transcript {d : Dialogue α}
    {drawn : List (Except GenerationError String)}
    (h : d.transcript answer s = Exchange.draws drawn) :
    drawn = (List.range drawn.length).map (comingDraw answer s) := by
  induction d generalizing s drawn with
  | done a =>
      obtain rfl := List.map_eq_nil_iff.1 h.symm
      rfl
  | ask call next ih =>
      obtain ⟨first, more, rfl, hfirst, hmore⟩ := List.map_eq_cons_iff.1 h.symm
      obtain ⟨rfl, hanswer⟩ := Exchange.mk.inj hfirst
      obtain rfl := eq_of_heq hanswer
      have hrest := ih _ hmore.symm
      rw [List.length_cons, List.range_succ_eq_map, List.map_cons, List.map_map]
      exact congrArg _ hrest

end Script

namespace Rotation

variable {σ : Type} {answer : (c : Call) → σ → c.Answer × σ} {s : σ}
  {script : Nat → Except String String} {inUse : List Credential} {limit : Nat}

/-- The draw that comes after `vain` others decides: it is the first that fails or brings a token
not in use. -/
structure Decides (inUse : List Credential) (script : Nat → Except String String) (vain : Nat) :
    Prop where
  earlier : ∀ i < vain, InVain inUse (script i)
  last : ¬ InVain inUse (script vain)

theorem Decides.unique {vain vain' : Nat} (h : Decides inUse script vain)
    (h' : Decides inUse script vain') : vain = vain' := by
  rcases Nat.lt_trichotomy vain vain' with hlt | heq | hgt
  · exact absurd (h'.earlier vain hlt) h.last
  · exact heq
  · exact absurd (h.earlier vain' hgt) h'.last

theorem inVain_mapError_iff {ε ε' : Type} {f : ε → ε'} {drawn : Except ε String} :
    InVain inUse (drawn.mapError f) ↔ InVain inUse drawn := by
  cases drawn <;> rfl

/-- What a draw brings, as the result of a search. -/
def brought : Except String String → Except RelayError String
  | .ok token => .ok token
  | .error text => .error (.tokenGeneration (.source text))

theorem brought_inj {drawn drawn' : Except String String} (h : brought drawn = brought drawn') :
    drawn = drawn' := by
  cases drawn <;> cases drawn' <;> simp_all [brought]

theorem brought_ne_collisions (drawn : Except String String) :
    brought drawn ≠ .error (.tokenGeneration .collisions) := by
  cases drawn <;> simp [brought]

/-- How a search on a script ends after `calls` draws: with what the draw brings that decides, or
with an error of its own if all its draws are in vain. -/
inductive Ends (inUse : List Credential) (limit : Nat) (script : Nat → Except String String) :
    Nat → Except RelayError String → Prop where
  | decided {vain : Nat} (hleft : vain < limit) (h : Decides inUse script vain) :
      Ends inUse limit script (vain + 1) (brought (script vain))
  | exhausted (h : ∀ i < limit, InVain inUse (script i)) :
      Ends inUse limit script limit (.error (.tokenGeneration .collisions))

theorem inVain_of_firstDraws {n : Nat} (h : ∀ d ∈ firstDraws script n, InVain inUse d) :
    ∀ i < n, InVain inUse (script i) := fun i hi =>
  inVain_mapError_iff.1 (h _ (List.mem_map.2 ⟨i, List.mem_range.2 hi, rfl⟩))

/-- A search whose draws are the first ones of a script ends as the script decides. -/
theorem Searched.ends {drawn : List (Except GenerationError String)}
    {result : Except RelayError String} (h : Searched inUse limit drawn result)
    (hdrawn : drawn = firstDraws script drawn.length) :
    Ends inUse limit script drawn.length result := by
  cases h with
  | @decided vain last hvain hleft hlast =>
      rw [List.length_append, List.length_singleton, firstDraws_succ] at hdrawn
      obtain ⟨hbefore, hlast'⟩ := List.append_inj' hdrawn rfl
      obtain rfl := List.singleton_inj.1 hlast'
      have hearlier : ∀ i < vain.length, InVain inUse (script i) :=
        inVain_of_firstDraws (hbefore ▸ hvain)
      have hbrought : ((script vain.length).mapError .source).mapError .tokenGeneration =
          brought (script vain.length) := by
        cases script vain.length <;> rfl
      rw [hbrought, List.length_append, List.length_singleton]
      exact .decided hleft ⟨hearlier, fun h => hlast (inVain_mapError_iff.2 h)⟩
  | exhausted hvain hlength =>
      rw [hdrawn, hlength] at hvain
      rw [hlength]
      exact .exhausted (inVain_of_firstDraws hvain)

section Ends

variable {calls : Nat} {result : Except RelayError String}

theorem Ends.calls_le (h : Ends inUse limit script calls result) : calls ≤ limit := by
  cases h with
  | decided hleft _ => exact hleft
  | exhausted _ => exact Nat.le_refl limit

/-- The draw that decides gives the result. -/
theorem Ends.brought_iff (h : Ends inUse limit script calls result) (vain : Nat)
    (drawn : Except String String) :
    result = brought drawn ∧ calls = vain + 1 ↔
      vain < limit ∧ Decides inUse script vain ∧ script vain = drawn := by
  cases h with
  | decided hleft hdecides =>
      constructor
      · rintro ⟨hresult, hcalls⟩
        obtain rfl := Nat.succ_inj.1 hcalls
        exact ⟨hleft, hdecides, brought_inj hresult⟩
      · rintro ⟨-, hdecides', rfl⟩
        obtain rfl := hdecides.unique hdecides'
        exact ⟨rfl, rfl⟩
  | exhausted hall =>
      constructor
      · rintro ⟨hresult, -⟩
        exact absurd hresult.symm (brought_ne_collisions drawn)
      · rintro ⟨hleft, hdecides, -⟩
        exact absurd (hall vain hleft) hdecides.last

/-- Only draws in vain give an error of the search's own. -/
theorem Ends.collisions_iff (h : Ends inUse limit script calls result) :
    result = .error (.tokenGeneration .collisions) ↔ ∀ i < limit, InVain inUse (script i) := by
  cases h with
  | @decided vain hleft hdecides =>
      exact iff_of_false (brought_ne_collisions _) fun hall => hdecides.last (hall vain hleft)
  | exhausted hall => exact iff_of_true rfl hall

theorem Ends.calls_of_collisions (h : Ends inUse limit script calls result)
    (hresult : result = .error (.tokenGeneration .collisions)) : calls = limit := by
  cases h with
  | decided _ _ => exact absurd hresult (brought_ne_collisions _)
  | exhausted _ => rfl

theorem Ends.not_inUse (h : Ends inUse limit script calls result) :
    ∀ c ∈ inUse, result ≠ .ok c.token := by
  intro c hc hresult
  cases h with
  | @decided vain _ hdecides =>
      have htoken : script vain = .ok c.token := brought_inj hresult
      apply hdecides.last
      rw [htoken]
      exact ⟨c, hc, rfl⟩
  | exhausted _ => exact absurd hresult (by simp)

end Ends

/-- A search for a token not in use makes the first draws of the script, four at most.  It ends
with the first of them that fails or brings a token not in use, and if all four bring tokens in
use, and only then, with an error of its own; so it never gives a token that is in use. -/
theorem drawFresh_first_unused (hscript : Supplies answer s script) (inUse : List Credential) :
    let search := (drawFresh inUse maxDraws).run
    let result := (search.run answer s).1
    ∃ calls ≤ 4,
      search.transcript answer s = Exchange.draws (firstDraws script calls) ∧
      (∀ vain token, result = .ok token ∧ calls = vain + 1 ↔
        vain < 4 ∧ Decides inUse script vain ∧ script vain = .ok token) ∧
      (∀ vain text, result = .error (.tokenGeneration (.source text)) ∧ calls = vain + 1 ↔
        vain < 4 ∧ Decides inUse script vain ∧ script vain = .error text) ∧
      (result = .error (.tokenGeneration .collisions) ↔ ∀ i < 4, InVain inUse (script i)) ∧
      (result = .error (.tokenGeneration .collisions) → calls = 4) ∧
      ∀ c ∈ inUse, result ≠ .ok c.token := by
  intro search result
  obtain ⟨drawn, htranscript, hsearched⟩ :=
    (follows_drawing inUse maxDraws []).ends_transcript answer s
  have hdrawn : drawn = firstDraws script drawn.length :=
    (Dialogue.eq_comingDraw_of_transcript htranscript).trans (hscript.eq_firstDraws _)
  have hends : Ends inUse 4 script drawn.length result := hsearched.ends hdrawn
  refine ⟨drawn.length, hends.calls_le, ?_, ?_, ?_, hends.collisions_iff,
    hends.calls_of_collisions, hends.not_inUse⟩
  · rw [← hdrawn]
    exact htranscript
  · intro vain token
    exact hends.brought_iff vain (.ok token)
  · intro vain text
    exact hends.brought_iff vain (.error text)

/-- The records of two tokens. -/
def twoInUse : List Credential :=
  [⟨"ci", 0, "C1", "a", "2024-01-02T03:04:05Z"⟩, ⟨"ci", 1, "C1", "b", "2024-01-02T03:04:05Z"⟩]

/-- A source that brings the two tokens again before it brings a new one. -/
def repeating : Surroundings :=
  .ofStore (.ledger .plain .empty) [some "a", some "b", some "a", some "c", some "d"]

/-- The last draw that may be made is in time. -/
theorem drawFresh_fourth_draw :
    let search := (drawFresh twoInUse maxDraws).run
    Supplies Surroundings.answer repeating repeating.supply ∧
      (search.run Surroundings.answer repeating).1 = .ok "c" ∧
      (search.transcript Surroundings.answer repeating).length = 4 := by
  intro search
  have hscript := repeating.supplies
  obtain ⟨calls, -, htranscript, htoken, -⟩ := drawFresh_first_unused hscript twoInUse
  have hdecides : Decides twoInUse repeating.supply 3 := ⟨by decide, by decide⟩
  obtain ⟨hresult, rfl⟩ := (htoken 3 "c").2 ⟨by decide, hdecides, rfl⟩
  refine ⟨hscript, hresult, ?_⟩
  rw [htranscript]
  rfl

end Rotation

end ChannelRelay
