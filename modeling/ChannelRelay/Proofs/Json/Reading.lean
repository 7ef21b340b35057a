import ChannelRelay.Proofs.Json.Written
import Mathlib.Data.List.Forall2

/-!
# The values of documents

Every value that is read is regular: the members of its objects ascend, and no object in it has
the key of embedded texts alone (`isRegular_recordOfText?`).  The other way round, a regular value
is read from its own document exactly if it fits (`valueWithin?_document`).
-/

namespace ChannelRelay.Json

namespace Document

variable {embedded : String → Option Json} {depth : Nat}

/-- To prove something of every document, prove it of an array from its items and of an object
from the documents of its members. -/
theorem induction {p : Document → Prop} (null : p .null) (bool : ∀ b, p (.bool b))
    (number : ∀ n, p (.number n)) (text : ∀ s, p (.text s))
    (array : ∀ items, (∀ d ∈ items, p d) → p (.array items))
    (object : ∀ members : List (Option String × Document),
      (∀ m ∈ members, p m.2) → p (.object members)) (d : Document) : p d :=
  match d with
  | .null => null
  | .bool b => bool b
  | .number n => number n
  | .text s => text s
  | .array items => array items fun d _ => induction null bool number text array object d
  | .object members =>
      object members fun m _ => induction null bool number text array object m.2
termination_by sizeOf d
decreasing_by
  · have := List.sizeOf_lt_of_mem ‹_ ∈ items›
    simp only [Document.array.sizeOf_spec]
    omega
  · have := List.sizeOf_lt_of_mem ‹_ ∈ members›
    obtain ⟨key, value⟩ := m
    simp only [Prod.mk.sizeOf_spec] at this
    simp only [Document.object.sizeOf_spec]
    omega

/-! ## Items and members -/

theorem items?_eq_some_iff {ds : List Document} {done vs : List Json} :
    items? embedded depth done ds = some vs ↔
      ∃ us, List.Forall₂ (fun d u => valueWithin? embedded depth d = some u) ds us ∧
        vs = done.reverse ++ us := by
  induction ds generalizing done with
  | nil =>
      rw [items?, Option.some.injEq]
      constructor
      · rintro rfl
        exact ⟨[], .nil, (List.append_nil _).symm⟩
      · rintro ⟨us, hus, rfl⟩
        rw [List.forall₂_nil_left_iff.1 hus, List.append_nil]
  | cons d rest ih =>
      rw [items?]
      cases hvalue : valueWithin? embedded depth d with
      | none =>
          refine iff_of_false (by simp) ?_
          rintro ⟨us, hus, -⟩
          obtain ⟨u, us, hu, -, rfl⟩ := List.forall₂_cons_left_iff.1 hus
          exact absurd (hvalue.symm.trans hu) (by simp)
      | some v =>
          rw [ih]
          constructor
          · rintro ⟨us, hus, rfl⟩
            exact ⟨v :: us, .cons hvalue hus, by simp⟩
          · rintro ⟨us, hus, rfl⟩
            obtain ⟨u, us, hu, hrest, rfl⟩ := List.forall₂_cons_left_iff.1 hus
            obtain rfl := Option.some.inj (hvalue.symm.trans hu)
            exact ⟨us, hrest, by simp⟩

/-- A member with its key and the value of its document. -/
def Reads (embedded : String → Option Json) (depth : Nat) (m : Option String × Document)
    (p : String × Json) : Prop :=
  m.1 = some p.1 ∧ valueWithin? embedded depth m.2 = some p.2

theorem members?_eq_some_iff {ms : List (Option String × Document)} {done r : Members} :
    members? embedded depth done ms = some r ↔
      ∃ pairs : Members, List.Forall₂ (Reads embedded depth) ms pairs ∧
        r = pairs.foldl (fun done m => done.set m.1 m.2) done := by
  induction ms generalizing done with
  | nil =>
      rw [members?, Option.some.injEq]
      constructor
      · rintro rfl
        exact ⟨[], .nil, rfl⟩
      · rintro ⟨pairs, hpairs, rfl⟩
        rw [List.forall₂_nil_left_iff.1 hpairs]
        rfl
  | cons m rest ih =>
      obtain ⟨key, d⟩ := m
      cases key with
      | none =>
          refine iff_of_false (by simp [members?]) ?_
          rintro ⟨pairs, hpairs, -⟩
          obtain ⟨p, pairs, hp, -, rfl⟩ := List.forall₂_cons_left_iff.1 hpairs
          exact absurd hp.1 (by simp)
      | some key =>
          cases hvalue : valueWithin? embedded depth d with
          | none =>
              refine iff_of_false (by simp [members?, hvalue]) ?_
              rintro ⟨pairs, hpairs, -⟩
              obtain ⟨p, pairs, hp, -, rfl⟩ := List.forall₂_cons_left_iff.1 hpairs
              exact absurd (hvalue.symm.trans hp.2) (by simp)
          | some v =>
              have hnext : members? embedded depth done ((some key, d) :: rest) =
                  members? embedded depth (done.set key v) rest := by
                simp only [members?, hvalue]
              rw [hnext, ih]
              constructor
              · rintro ⟨pairs, hpairs, rfl⟩
                exact ⟨(key, v) :: pairs, .cons ⟨rfl, hvalue⟩ hpairs, rfl⟩
              · rintro ⟨pairs, hpairs, rfl⟩
                obtain ⟨⟨k, u⟩, pairs, ⟨hk, hu⟩, hrest, rfl⟩ :=
                  List.forall₂_cons_left_iff.1 hpairs
                obtain rfl : key = k := Option.some.inj hk
                obtain rfl : v = u := Option.some.inj (hvalue.symm.trans hu)
                exact ⟨pairs, hrest, rfl⟩

/-! ## What is read is regular -/

theorem exists_of_mem_right {α β : Type} {R : α → β → Prop} {xs : List α} {ys : List β}
    (h : List.Forall₂ R xs ys) {y : β} (hy : y ∈ ys) : ∃ x ∈ xs, R x y := by
  induction h with
  | nil => exact absurd hy List.not_mem_nil
  | cons hxy _ ih =>
      rcases List.mem_cons.1 hy with rfl | hy
      · exact ⟨_, List.mem_cons_self, hxy⟩
      · obtain ⟨x, hx, hxy⟩ := ih hy
        exact ⟨x, List.mem_cons_of_mem _ hx, hxy⟩

/-- A number is no array and no object. -/
theorem isLeaf_of_value? {n : Numeral} {v : Json} (h : n.value? = some v) :
    v.isLeaf = true := by
  have hdouble : ∀ {negative register power}, double? negative register power = some v →
      v.isLeaf = true := by
    intro negative register power h
    obtain ⟨significand, -, h⟩ := Option.bind_eq_some_iff.1 h
    obtain ⟨magnitude, -, h⟩ := Option.bind_eq_some_iff.1 h
    obtain rfl := Option.some.inj h
    rfl
  unfold Numeral.value? at h
  dsimp only at h
  split at h
  · split at h
    · unfold whole? at h
      split at h
      · exact hdouble h
      · obtain rfl := Option.some.inj h
        rfl
    · exact hdouble h
  · split at h
    · split at h
      · exact absurd h (by simp)
      · obtain rfl := Option.some.inj h
        rfl
    · exact hdouble h

/-- What holds of the values of all items holds of the items that are read. -/
theorem forall_of_items? {p : Json → Prop} {ds : List Document} {vs : List Json}
    (hread : items? embedded depth [] ds = some vs)
    (h : ∀ d ∈ ds, ∀ v, valueWithin? embedded depth d = some v → p v) : ∀ v ∈ vs, p v := by
  obtain ⟨us, hus, rfl⟩ := items?_eq_some_iff.1 hread
  intro u hu
  obtain ⟨d, hd, hvalue⟩ := exists_of_mem_right hus hu
  exact h d hd u hvalue

/-- What holds of the keys and values of all members holds of the members that are read. -/
theorem forall_of_members? {p : String × Json → Prop} {ms : List (Option String × Document)}
    {members : Members} (hread : members? embedded depth [] ms = some members)
    (h : ∀ m ∈ ms, ∀ read, Reads embedded depth m read → p read) : ∀ m ∈ members, p m := by
  obtain ⟨pairs, hpairs, rfl⟩ := members?_eq_some_iff.1 hread
  intro read hmem
  have hmem := (Members.mem_of_mem_foldl_set hmem).resolve_right List.not_mem_nil
  obtain ⟨m, hm, hreads⟩ := exists_of_mem_right hpairs hmem
  exact h m hm read hreads

theorem ascending_of_members? {ms : List (Option String × Document)} {members : Members}
    (hread : members? embedded depth [] ms = some members) : members.Ascending := by
  obtain ⟨pairs, -, rfl⟩ := members?_eq_some_iff.1 hread
  exact Members.ascending_foldl_set List.Pairwise.nil

/-- The first key of an object that is no embedding is another one, and it is kept. -/
theorem ne_embedding_of_members? {ms : List (Option String × Document)} {members : Members}
    (hread : members? embedded depth [] ms = some members) (h : isEmbedding ms = false)
    (value : Json) : members ≠ [(embeddingKey, value)] := by
  rintro rfl
  obtain ⟨pairs, hpairs, hset⟩ := members?_eq_some_iff.1 hread
  cases hpairs with
  | nil => exact absurd hset (by simp)
  | @cons m p ms pairs hp _ =>
      have hkey : p.1 ∈ [(embeddingKey, value)].map Prod.fst := by
        rw [hset]
        exact Members.mem_keys_foldl_set (Or.inl List.mem_cons_self)
      obtain ⟨key, d⟩ := m
      obtain rfl : key = some p.1 := hp.1
      rw [isEmbedding, List.mem_singleton.1 hkey] at h
      exact absurd h (by simp)

/-- Where embedded texts have regular values, so have all documents. -/
theorem isRegular_of_valueWithin?
    (hembedded : ∀ text v, embedded text = some v → v.IsRegular) {d : Document} {v : Json}
    (h : valueWithin? embedded depth d = some v) : v.IsRegular := by
  induction d using Document.induction generalizing depth v with
  | null =>
      obtain rfl := Option.some.inj h
      exact isRegular_of_isLeaf rfl
  | bool b =>
      obtain rfl := Option.some.inj h
      exact isRegular_of_isLeaf rfl
  | number n => exact isRegular_of_isLeaf (isLeaf_of_value? h)
  | text s =>
      obtain ⟨t, -, rfl⟩ := Option.map_eq_some_iff.1 h
      exact isRegular_of_isLeaf rfl
  | array items ih =>
      rw [valueWithin?] at h
      split at h
      · exact absurd h (by simp)
      · obtain ⟨vs, hread, rfl⟩ := Option.map_eq_some_iff.1 h
        exact isRegular_array (forall_of_items? hread fun d hd v => ih d hd)
  | object members ih =>
      rw [valueWithin?] at h
      split at h
      · exact absurd h (by simp)
      · split at h
        · obtain ⟨text, -, hvalue⟩ := Option.bind_eq_some_iff.1 h
          exact hembedded text v hvalue
        · rename_i hkey
          obtain ⟨read, hread, rfl⟩ := Option.map_eq_some_iff.1 h
          exact isRegular_object (ascending_of_members? hread)
            (ne_embedding_of_members? hread (Bool.eq_false_iff.2 hkey))
            (forall_of_members? hread fun m hm read hreads => ih m hm hreads.2)

/-! ## Documents without embedded texts -/

/-- The parts of a document are the document itself and the parts of its items and members. -/
inductive Part : Document → Document → Prop where
  | self (d : Document) : Part d d
  | item {d e : Document} {items : List Document} (hmem : e ∈ items) (h : Part d e) :
      Part d (.array items)
  | member {d : Document} {m : Option String × Document} {members : List (Option String × Document)}
      (hmem : m ∈ members) (h : Part d m.2) : Part d (.object members)

theorem Part.trans {d e f : Document} (h : Part d e) (h' : Part e f) : Part d f := by
  induction h' with
  | self => exact h
  | item hmem _ ih => exact .item hmem ih
  | member hmem _ ih => exact .member hmem ih

/-- No object in the document has the key of embedded texts. -/
def IsPlain (d : Document) : Prop :=
  ∀ members, Part (.object members) d → ∀ m ∈ members, m.1 ≠ some embeddingKey

theorem IsPlain.part {d e : Document} (h : e.IsPlain) (hpart : Part d e) : d.IsPlain :=
  fun members hmembers => h members (hmembers.trans hpart)

theorem not_isEmbedding_of_plain {ms : List (Option String × Document)}
    (hplain : ∀ m ∈ ms, m.1 ≠ some embeddingKey) : ¬ isEmbedding ms = true := by
  intro h
  unfold isEmbedding at h
  split at h
  · exact hplain _ List.mem_cons_self (congrArg some (beq_iff_eq.1 h))
  · exact absurd h (by simp)

/-- The values of a plain object do not begin with the key. -/
theorem ne_embedding_of_plain {ms : List (Option String × Document)} {members : Members}
    (hread : members? embedded depth [] ms = some members)
    (hplain : ∀ m ∈ ms, m.1 ≠ some embeddingKey) (value : Json) (rest : Members) :
    members ≠ (embeddingKey, value) :: rest := by
  have hkeys : ∀ m ∈ members, m.1 ≠ embeddingKey :=
    forall_of_members? hread fun m hm read hreads hkey => hplain m hm (hkey ▸ hreads.1)
  rintro rfl
  exact hkeys _ List.mem_cons_self rfl

/-- A document without embedded texts has a value that fits where the document was read. -/
theorem fits_of_valueWithin? {d : Document} (hplain : d.IsPlain) {v : Json}
    (h : valueWithin? embedded depth d = some v) : v.Fits depth := by
  induction d using Document.induction generalizing depth v with
  | null =>
      obtain rfl := Option.some.inj h
      exact fits_of_isLeaf rfl depth
  | bool b =>
      obtain rfl := Option.some.inj h
      exact fits_of_isLeaf rfl depth
  | number n => exact fits_of_isLeaf (isLeaf_of_value? h) depth
  | text s =>
      obtain ⟨t, -, rfl⟩ := Option.map_eq_some_iff.1 h
      exact fits_of_isLeaf rfl depth
  | array items ih =>
      rw [valueWithin?] at h
      split at h
      · exact absurd h (by simp)
      · rename_i hdepth
        obtain ⟨depth, rfl⟩ := Nat.exists_eq_succ_of_ne_zero hdepth
        obtain ⟨vs, hread, rfl⟩ := Option.map_eq_some_iff.1 h
        exact fits_array_iff.2 (forall_of_items? hread fun d hd v =>
          ih d hd (hplain.part (.item hd (.self d))))
  | object members ih =>
      have hkeys := hplain members (.self _)
      rw [valueWithin?] at h
      split at h
      · exact absurd h (by simp)
      · rename_i hdepth
        obtain ⟨depth, rfl⟩ := Nat.exists_eq_succ_of_ne_zero hdepth
        rw [if_neg (not_isEmbedding_of_plain hkeys)] at h
        obtain ⟨read, hread, rfl⟩ := Option.map_eq_some_iff.1 h
        exact fits_object_iff.2 ⟨ne_embedding_of_plain hread hkeys,
          forall_of_members? hread fun m hm p hreads =>
            ih m hm (hplain.part (.member hm (.self m.2))) hreads.2⟩

end Document

theorem isRegular_of_valueOf? {levels : Nat} {text : String} {v : Json}
    (h : valueOf? levels text = some v) : v.IsRegular := by
  induction levels generalizing text v with
  | zero => exact absurd h (by simp [valueOf?])
  | succ levels ih =>
      obtain ⟨d, -, hvalue⟩ := Option.bind_eq_some_iff.1 h
      exact Document.isRegular_of_valueWithin? (fun _ _ => ih) hvalue

/-- The members of a text's object ascend, and their values are regular. -/
theorem isRegular_of_recordOfText? {text : String} {members : Members}
    (h : recordOfText? text = some members) :
    members.Ascending ∧ ∀ m ∈ members, m.2.IsRegular := by
  obtain ⟨d, -, hrecord⟩ := Option.bind_eq_some_iff.1 h
  unfold Document.record? at hrecord
  split at hrecord
  · exact ⟨Document.ascending_of_members? hrecord,
      Document.forall_of_members? hrecord fun m _ read hreads =>
        Document.isRegular_of_valueWithin? (fun _ _ => isRegular_of_valueOf?) hreads.2⟩
  · exact absurd hrecord (by simp)

/-- The values of a text's object fit if the text embeds no other. -/
theorem fits_of_recordOfText? {text : String} {members : Members}
    (h : recordOfText? text = some members)
    (hplain : ∀ d, Document.ofChars? text.toList = some d → d.IsPlain) :
    ∀ m ∈ members, m.2.Fits (Document.maxDepth - 1) := by
  obtain ⟨d, hd, hrecord⟩ := Option.bind_eq_some_iff.1 h
  have hplain := hplain d hd
  unfold Document.record? at hrecord
  split at hrecord
  · exact Document.forall_of_members? hrecord fun m hm read hreads =>
      Document.fits_of_valueWithin? (hplain.part (.member hm (.self m.2))) hreads.2
  · exact absurd hrecord (by simp)

/-! ## A value is read from its document -/

variable {embedded : String → Option Json} {depth : Nat} {v : Json} {items : List Json}
  {members : Members}

theorem forall₂_eq_iff {α β : Type} {f : α → β} {R : β → α → Prop} {P : α → Prop} {xs ys : List α}
    (h : ∀ x ∈ xs, ∀ y, R (f x) y ↔ y = x ∧ P x) :
    List.Forall₂ R (xs.map f) ys ↔ ys = xs ∧ ∀ x ∈ xs, P x := by
  induction xs generalizing ys with
  | nil => simp
  | cons x xs ih =>
      rw [List.map_cons, List.forall₂_cons_left_iff]
      constructor
      · rintro ⟨y, ys, hy, hrest, rfl⟩
        obtain ⟨rfl, hx⟩ := (h x List.mem_cons_self y).1 hy
        obtain ⟨rfl, hxs⟩ := (ih fun z hz => h z (List.mem_cons_of_mem _ hz)).1 hrest
        exact ⟨rfl, List.forall_mem_cons.2 ⟨hx, hxs⟩⟩
      · rintro ⟨rfl, hall⟩
        obtain ⟨hx, hxs⟩ := List.forall_mem_cons.1 hall
        exact ⟨x, xs, (h x List.mem_cons_self x).2 ⟨rfl, hx⟩,
          (ih fun z hz => h z (List.mem_cons_of_mem _ hz)).2 ⟨rfl, hxs⟩, rfl⟩

/-- Members are read from their documents if their values are. -/
theorem members?_documents (hascending : members.Ascending) {r : Members}
    (h : ∀ m ∈ members, ∀ u, m.2.document.valueWithin? embedded depth = some u ↔
      u = m.2 ∧ m.2.Fits depth) :
    Document.members? embedded depth [] (memberDocuments members) = some r ↔
      r = members ∧ ∀ m ∈ members, m.2.Fits depth := by
  have hset : members.foldl (fun done m => Members.set m.1 m.2 done) [] = members :=
    Members.foldl_set_of_ascending (by simpa using hascending)
  have hpairs : ∀ pairs, List.Forall₂ (Document.Reads embedded depth) (memberDocuments members)
      pairs ↔ pairs = members ∧ ∀ m ∈ members, m.2.Fits depth := by
    intro pairs
    rw [memberDocuments_eq]
    refine forall₂_eq_iff fun m hm p => ?_
    rw [Document.Reads, h m hm, Option.some.injEq, Prod.ext_iff]
    constructor
    · rintro ⟨hkey, hvalue, hfits⟩
      exact ⟨⟨hkey.symm, hvalue⟩, hfits⟩
    · rintro ⟨⟨hkey, hvalue⟩, hfits⟩
      exact ⟨hkey.symm, hvalue, hfits⟩
  rw [Document.members?_eq_some_iff]
  simp only [hpairs]
  constructor
  · rintro ⟨pairs, ⟨rfl, hfits⟩, rfl⟩
    exact ⟨hset, hfits⟩
  · rintro ⟨rfl, hfits⟩
    exact ⟨r, ⟨rfl, hfits⟩, hset.symm⟩

theorem isEmbedding_memberDocuments_iff :
    Document.isEmbedding (memberDocuments members) = true ↔
      ∃ value rest, members = (Document.embeddingKey, value) :: rest := by
  cases members with
  | nil => exact iff_of_false (by simp [memberDocuments, Document.isEmbedding]) (by simp)
  | cons m rest =>
      obtain ⟨key, value⟩ := m
      rw [memberDocuments, Document.isEmbedding, beq_iff_eq]
      constructor
      · rintro rfl
        exact ⟨value, rest, rfl⟩
      · rintro ⟨_, _, h⟩
        exact (Prod.mk.inj (List.cons.inj h).1).1

theorem some_eq_iff_of_isLeaf {u : Json} (h : v.isLeaf = true) :
    some v = some u ↔ u = v ∧ v.Fits depth := by
  rw [Option.some.injEq, eq_comm]
  exact (and_iff_left (fits_of_isLeaf h depth)).symm

/-- A regular value with whole numbers is read from its own document exactly if it fits, and no
other value is. -/
theorem valueWithin?_document (hwhole : v.IsWhole) (hregular : v.IsRegular) {u : Json} :
    v.document.valueWithin? embedded depth = some u ↔ u = v ∧ v.Fits depth := by
  induction v using Json.induction generalizing depth u with
  | null => exact some_eq_iff_of_isLeaf rfl
  | bool b => exact some_eq_iff_of_isLeaf rfl
  | int n =>
      rw [document, Document.valueWithin?, value?_ofInt (hwhole.1 n (.self _))]
      exact some_eq_iff_of_isLeaf rfl
  | float x =>
      obtain rfl := hwhole.2 x (.self _)
      rw [document, Document.valueWithin?, value?_zeroNumeral]
      exact some_eq_iff_of_isLeaf rfl
  | text s => exact some_eq_iff_of_isLeaf rfl
  | array items ih =>
      rw [document, Document.valueWithin?, itemDocuments_eq]
      cases depth with
      | zero => exact iff_of_false (by simp) fun h => absurd h.2.1 (Nat.not_succ_le_zero _)
      | succ depth =>
          have hitems : ∀ us, List.Forall₂
              (fun d u => Document.valueWithin? embedded depth d = some u) (items.map document) us ↔
                us = items ∧ ∀ v ∈ items, v.Fits depth := fun us =>
            forall₂_eq_iff fun v hv u => ih v hv (hwhole.part (.item hv (.self v)))
              (hregular.part (.item hv (.self v)))
          rw [if_neg (Nat.succ_ne_zero _), Nat.add_sub_cancel, Option.map_eq_some_iff,
            fits_array_iff]
          simp only [Document.items?_eq_some_iff, hitems]
          constructor
          · rintro ⟨vs, ⟨us, ⟨rfl, hfits⟩, rfl⟩, rfl⟩
            exact ⟨rfl, hfits⟩
          · rintro ⟨rfl, hfits⟩
            exact ⟨items, ⟨items, ⟨rfl, hfits⟩, rfl⟩, rfl⟩
  | object members ih =>
      rw [document, Document.valueWithin?]
      cases depth with
      | zero => exact iff_of_false (by simp) fun h => absurd h.2.1 (Nat.not_succ_le_zero _)
      | succ depth =>
          rw [if_neg (Nat.succ_ne_zero _), Nat.add_sub_cancel, fits_object_iff]
          by_cases hembedding : Document.isEmbedding (memberDocuments members) = true
          · -- The object is taken for an embedding, but it has too many members for one.
            obtain ⟨value, rest, rfl⟩ := isEmbedding_memberDocuments_iff.1 hembedding
            have htext : Document.onlyText? (memberDocuments
                ((Document.embeddingKey, value) :: rest)) = none := by
              cases rest with
              | nil => exact absurd rfl ((hregular _ (.self _)).2 value)
              | cons m rest =>
                  rw [memberDocuments_eq]
                  simp [Document.onlyText?]
            rw [if_pos hembedding, htext]
            exact iff_of_false (by simp) fun h => h.2.1 value rest rfl
          · have hfirst : ∀ value rest, members ≠ (Document.embeddingKey, value) :: rest :=
              fun value rest h => hembedding (isEmbedding_memberDocuments_iff.2 ⟨value, rest, h⟩)
            have hread : ∀ r, Document.members? embedded depth [] (memberDocuments members) =
                some r ↔ r = members ∧ ∀ m ∈ members, m.2.Fits depth := fun r =>
              members?_documents (hregular _ (.self _)).1 fun m hm _ => ih m hm
                (hwhole.part (.member hm (.self m.2))) (hregular.part (.member hm (.self m.2)))
            rw [if_neg hembedding, Option.map_eq_some_iff]
            simp only [hread]
            constructor
            · rintro ⟨r, ⟨rfl, hfits⟩, rfl⟩
              exact ⟨rfl, hfirst, hfits⟩
            · rintro ⟨rfl, -, hfits⟩
              exact ⟨members, ⟨rfl, hfits⟩, rfl⟩

/-- An object is read from its own document as a record exactly if its values fit. -/
theorem record?_document (hwhole : (Json.object members).IsWhole)
    (hascending : members.Ascending) (hregular : ∀ m ∈ members, m.2.IsRegular) {r : Members} :
    (Json.object members).document.record? embedded = some r ↔
      r = members ∧ ∀ m ∈ members, m.2.Fits (Document.maxDepth - 1) :=
  members?_documents hascending fun m hm _ =>
    valueWithin?_document (hwhole.part (.member hm (.self m.2))) (hregular m hm)

end ChannelRelay.Json
