import ChannelRelay.Json.Reader
import ChannelRelay.Proofs.Json.Lexeme
import ChannelRelay.Proofs.Text.Utf8

/-!
# The text of a value is a document

The reader takes the text of a value to pieces in the order in which it was put together: from
every state that expects a value it comes to the state that has taken the value's document
(`run_chars`).  So the text is this document and no other (`ofChars?_chars`), however deep the
value is and whatever keys it has.
-/

namespace ChannelRelay.Json

variable {v : Json} {items : List Json} {members : Members} {rest : List Char}

/-! ## The characters of a value -/

/-- The characters of the text of a value. -/
def chars (v : Json) : List Char :=
  v.print.toList

/-- Texts with commas between them. -/
def separated : List (List Char) → List Char
  | [] => []
  | first :: more => first ++ more.flatMap (',' :: ·)

/-- The characters of a member. -/
def memberChars (m : String × Json) : List Char :=
  (quoted m.1).toList ++ ':' :: m.2.chars

/-- The text of a value is put behind what is there. -/
theorem toList_writeItems (h : ∀ v ∈ items, ∀ out, (write out v).toList = out.toList ++ v.chars)
    (out : String) :
    (writeItems false out items).toList =
      out.toList ++ (items.map chars).flatMap (',' :: ·) := by
  induction items generalizing out with
  | nil => simp [writeItems]
  | cons v rest ih =>
      rw [writeItems, if_neg (by decide), ih fun u hu => h u (List.mem_cons_of_mem _ hu),
        h v List.mem_cons_self, String.toList_push, List.map_cons, List.flatMap_cons]
      simp

theorem toList_writeItems_true
    (h : ∀ v ∈ items, ∀ out, (write out v).toList = out.toList ++ v.chars) (out : String) :
    (writeItems true out items).toList = out.toList ++ separated (items.map chars) := by
  cases items with
  | nil => simp [writeItems, separated]
  | cons v rest =>
      rw [writeItems, if_pos rfl, toList_writeItems fun u hu => h u (List.mem_cons_of_mem _ hu),
        h v List.mem_cons_self, List.append_assoc]
      rfl

theorem toList_writeMembers
    (h : ∀ m ∈ members, ∀ out, (write out m.2).toList = out.toList ++ m.2.chars) (out : String) :
    (writeMembers false out members).toList =
      out.toList ++ (members.map memberChars).flatMap (',' :: ·) := by
  induction members generalizing out with
  | nil => simp [writeMembers]
  | cons m rest ih =>
      rw [writeMembers, if_neg (by decide), ih fun n hn => h n (List.mem_cons_of_mem _ hn),
        h m List.mem_cons_self, String.toList_push, String.toList_append, String.toList_push,
        List.map_cons, List.flatMap_cons]
      simp [memberChars]

theorem toList_writeMembers_true
    (h : ∀ m ∈ members, ∀ out, (write out m.2).toList = out.toList ++ m.2.chars) (out : String) :
    (writeMembers true out members).toList =
      out.toList ++ separated (members.map memberChars) := by
  cases members with
  | nil => simp [writeMembers, separated]
  | cons m rest =>
      rw [writeMembers, if_pos rfl, toList_writeMembers fun n hn => h n (List.mem_cons_of_mem _ hn),
        h m List.mem_cons_self, String.toList_push, String.toList_append]
      simp [separated, memberChars]

theorem toList_write (v : Json) (out : String) : (write out v).toList = out.toList ++ v.chars := by
  induction v using Json.induction generalizing out with
  | null => simp [chars, print, write]
  | bool b => cases b <;> simp [chars, print, write]
  | int n => simp [chars, print, write]
  | float x => simp [chars, print, write]
  | text s => simp [chars, print, write]
  | array items ih =>
      simp [chars, print, write, toList_writeItems_true ih]
  | object members ih =>
      simp [chars, print, write, toList_writeMembers_true ih]

theorem chars_array (items : List Json) :
    (Json.array items).chars = '[' :: (separated (items.map chars) ++ [']']) := by
  simp [chars, print, write, toList_writeItems_true fun v _ => toList_write v]

theorem chars_object (members : Members) :
    (Json.object members).chars = '\x7b' :: (separated (members.map memberChars) ++ ['\x7d']) := by
  simp [chars, print, write, toList_writeMembers_true fun m _ => toList_write m.2]

/-! ## The first token -/

/-- The token that the text of a value begins with. -/
def firstToken : Json → Token
  | .null => .null
  | .bool b => .bool b
  | .int n => .number (.ofInt n)
  | .float _ => .number zeroNumeral
  | .text s => .text (some s)
  | .array _ => .openArray
  | .object _ => .openObject

/-- What follows the first token. -/
def laterChars : Json → List Char
  | .array items => separated (items.map chars) ++ [']']
  | .object members => separated (members.map memberChars) ++ ['\x7d']
  | _ => []

theorem next?_chars (hwhole : v.IsWhole) (hrest : EndsNumeral rest) :
    Token.next? (v.chars ++ rest) = some (v.firstToken, v.laterChars ++ rest) := by
  cases v with
  | null => exact next?_null rest
  | bool b =>
      cases b with
      | true => exact next?_true rest
      | false => exact next?_false rest
  | int n => exact next?_toString n hrest
  | float x =>
      obtain rfl := hwhole.2 x (.self _)
      exact next?_negativeZero hrest
  | text s => exact next?_quoted s rest
  | array items =>
      rw [chars_array]
      rfl
  | object members =>
      rw [chars_object]
      rfl

/-! ## The document -/

mutual

/-- The document of the text of a value whose numbers are whole. -/
def document : Json → Document
  | .null => .null
  | .bool b => .bool b
  | .int n => .number (.ofInt n)
  | .float _ => .number zeroNumeral
  | .text s => .text (some s)
  | .array items => .array (itemDocuments items)
  | .object members => .object (memberDocuments members)

/-- The documents of items. -/
def itemDocuments : List Json → List Document
  | [] => []
  | v :: rest => v.document :: itemDocuments rest

/-- The keys of members with the documents of their values. -/
def memberDocuments : Members → List (Option String × Document)
  | [] => []
  | (key, v) :: rest => (some key, v.document) :: memberDocuments rest

end

theorem itemDocuments_eq (items : List Json) : itemDocuments items = items.map document := by
  induction items with
  | nil => rfl
  | cons v rest ih => rw [itemDocuments, ih, List.map_cons]

theorem memberDocuments_eq (members : Members) :
    memberDocuments members = members.map fun m => (some m.1, m.2.document) := by
  induction members with
  | nil => rfl
  | cons m rest ih => rw [memberDocuments, ih, List.map_cons]

/-! ## Reading -/

theorem isGap_of_next? {c : Char} {t : Token} {later : List Char}
    (h : Token.next? (c :: rest) = some (t, later)) : isGap c = false := by
  by_contra hgap
  simp only [isGap, Bool.not_eq_false, Bool.or_eq_true, beq_iff_eq] at hgap
  have hnone : Token.next? (c :: rest) = none := by
    rcases hgap with ((rfl | rfl) | rfl) | rfl
    all_goals rfl
  exact absurd (hnone.symm.trans h) (by simp)

/-- A token at the start of the text is the next one that is read. -/
theorem run_of_next? {r : Reader} {cs later : List Char} {t : Token}
    (h : Token.next? cs = some (t, later)) : r.run cs = (r.step t).bind (·.run later) := by
  cases cs with
  | nil => exact absurd h (by simp [Token.next?])
  | cons c rest =>
      have hdrop : (c :: rest).dropWhile isGap = c :: rest :=
        List.dropWhile_cons_of_neg (by simp [isGap_of_next? h])
      rw [Reader.run]
      split
      · rename_i hnil
        exact absurd (hdrop.symm.trans hnil) (by simp)
      · rename_i d more hcons
        obtain ⟨rfl, rfl⟩ := List.cons.inj (hdrop.symm.trans hcons)
        split
        · rename_i hnone
          exact absurd (h.symm.trans hnone) (by simp)
        · rename_i u after hnext
          obtain ⟨rfl, rfl⟩ := Prod.mk.inj (Option.some.inj (h.symm.trans hnext))
          cases hstep : r.step t with
          | none => rfl
          | some r => rfl

theorem endsNumeral_nil : EndsNumeral [] :=
  fun _ h => absurd h (by simp)

theorem endsNumeral_cons {c : Char} (h : c = ',' ∨ c = ']' ∨ c = '\x7d') :
    EndsNumeral (c :: rest) := by
  intro d hd
  obtain rfl := Option.mem_some.1 hd
  rcases h with rfl | rfl | rfl
  all_goals decide

/-- What follows an item or a member ends its numeral. -/
theorem endsNumeral_flatMap {closing : Char} (h : closing = ']' ∨ closing = '\x7d')
    (more : List (List Char)) :
    EndsNumeral (more.flatMap (',' :: ·) ++ closing :: rest) := by
  cases more with
  | nil => exact endsNumeral_cons (Or.inr h)
  | cons first more => exact endsNumeral_cons (Or.inl rfl)

/-- The reader takes the text of the value for its document, whatever comes after it. -/
def ReadsBack (v : Json) : Prop :=
  ∀ stack rest, EndsNumeral rest →
    Reader.run ⟨stack, .value⟩ (v.chars ++ rest) =
      (Reader.complete v.document stack).bind (·.run rest)

/-- Where an array may end, a value is read as where one has to come. -/
theorem run_itemOrEnd (hwhole : v.IsWhole) (stack : List Frame) (hrest : EndsNumeral rest) :
    Reader.run ⟨stack, .itemOrEnd⟩ (v.chars ++ rest) =
      Reader.run ⟨stack, .value⟩ (v.chars ++ rest) := by
  have hstep : Reader.step ⟨stack, .itemOrEnd⟩ v.firstToken =
      Reader.step ⟨stack, .value⟩ v.firstToken := by
    -- No value begins with the bracket that closes an array.
    cases v <;> rfl
  rw [run_of_next? (next?_chars hwhole hrest), run_of_next? (next?_chars hwhole hrest), hstep]

/-- Items that follow in an open array. -/
theorem run_items (h : ∀ v ∈ items, ReadsBack v) (stack : List Frame) (done : List Document) :
    Reader.run ⟨.array done :: stack, .completed⟩
        ((items.map chars).flatMap (',' :: ·) ++ ']' :: rest) =
      (Reader.complete (.array (done.reverse ++ items.map document)) stack).bind
        (·.run rest) := by
  induction items generalizing done with
  | nil =>
      rw [List.map_nil, List.flatMap_nil, List.nil_append, run_of_next? (next?_closeArray _),
        List.map_nil, List.append_nil]
      rfl
  | cons v items ih =>
      rw [List.map_cons, List.flatMap_cons, List.cons_append, List.cons_append, List.append_assoc,
        run_of_next? (next?_comma _)]
      show Reader.run ⟨.array done :: stack, .value⟩ _ = _
      rw [h v List.mem_cons_self _ _ (endsNumeral_flatMap (Or.inl rfl) _)]
      show Reader.run ⟨.array (v.document :: done) :: stack, .completed⟩ _ = _
      rw [ih (fun u hu => h u (List.mem_cons_of_mem _ hu)), List.reverse_cons, List.append_assoc]
      rfl

/-- The array that has been opened. -/
theorem run_array (hwhole : (Json.array items).IsWhole) (h : ∀ v ∈ items, ReadsBack v)
    (stack : List Frame) :
    Reader.run ⟨.array [] :: stack, .itemOrEnd⟩ (separated (items.map chars) ++ ']' :: rest) =
      (Reader.complete (Json.array items).document stack).bind (·.run rest) := by
  rw [document, itemDocuments_eq]
  cases items with
  | nil =>
      rw [List.map_nil, separated, List.nil_append, run_of_next? (next?_closeArray _)]
      rfl
  | cons v items =>
      have hv : v.IsWhole := hwhole.part (.item List.mem_cons_self (.self v))
      have hends : EndsNumeral ((items.map chars).flatMap (',' :: ·) ++ ']' :: rest) :=
        endsNumeral_flatMap (Or.inl rfl) _
      rw [List.map_cons, separated, List.append_assoc, run_itemOrEnd hv _ hends,
        h v List.mem_cons_self _ _ hends]
      show Reader.run ⟨.array [v.document] :: stack, .completed⟩ _ = _
      rw [run_items fun u hu => h u (List.mem_cons_of_mem _ hu)]
      rfl

/-- A member, where a key may come. -/
theorem run_member {m : String × Json} (h : ReadsBack m.2) {place : Place}
    (hplace : place = .key ∨ place = .keyOrEnd) (stack : List Frame)
    (done : List (Option String × Document)) (hrest : EndsNumeral rest) :
    Reader.run ⟨.object done :: stack, place⟩ (memberChars m ++ rest) =
      Reader.run ⟨.object ((some m.1, m.2.document) :: done) :: stack, .completed⟩ rest := by
  have hkey : Reader.step ⟨.object done :: stack, place⟩ (.text (some m.1)) =
      some ⟨.member done (some m.1) :: stack, .colon⟩ := by
    rcases hplace with rfl | rfl
    all_goals rfl
  rw [memberChars, List.append_assoc, run_of_next? (next?_quoted _ _), hkey, Option.bind_some,
    List.cons_append, run_of_next? (next?_colon _)]
  show Reader.run ⟨.member done (some m.1) :: stack, .value⟩ _ = _
  rw [h _ _ hrest]
  rfl

/-- Members that follow in an open object. -/
theorem run_members (h : ∀ m ∈ members, ReadsBack m.2) (stack : List Frame)
    (done : List (Option String × Document)) :
    Reader.run ⟨.object done :: stack, .completed⟩
        ((members.map memberChars).flatMap (',' :: ·) ++ '\x7d' :: rest) =
      (Reader.complete (.object (done.reverse ++ memberDocuments members)) stack).bind
        (·.run rest) := by
  induction members generalizing done with
  | nil =>
      rw [List.map_nil, List.flatMap_nil, List.nil_append, run_of_next? (next?_closeObject _),
        memberDocuments, List.append_nil]
      rfl
  | cons m members ih =>
      rw [List.map_cons, List.flatMap_cons, List.cons_append, List.cons_append, List.append_assoc,
        run_of_next? (next?_comma _)]
      show Reader.run ⟨.object done :: stack, .key⟩ _ = _
      rw [run_member (h m List.mem_cons_self) (Or.inl rfl) _ _
          (endsNumeral_flatMap (Or.inr rfl) _),
        ih fun n hn => h n (List.mem_cons_of_mem _ hn), List.reverse_cons, List.append_assoc]
      rfl

/-- The object that has been opened. -/
theorem run_object (h : ∀ m ∈ members, ReadsBack m.2) (stack : List Frame) :
    Reader.run ⟨.object [] :: stack, .keyOrEnd⟩
        (separated (members.map memberChars) ++ '\x7d' :: rest) =
      (Reader.complete (Json.object members).document stack).bind (·.run rest) := by
  cases members with
  | nil =>
      rw [List.map_nil, separated, List.nil_append, run_of_next? (next?_closeObject _)]
      rfl
  | cons m members =>
      rw [List.map_cons, separated, List.append_assoc,
        run_member (h m List.mem_cons_self) (Or.inr rfl) _ _
          (endsNumeral_flatMap (Or.inr rfl) _),
        run_members fun n hn => h n (List.mem_cons_of_mem _ hn)]
      rfl

/-- Every value whose numbers are whole is read back as its document. -/
theorem run_chars (v : Json) (hwhole : v.IsWhole) : ReadsBack v := by
  induction v using Json.induction with
  | array items ih =>
      intro stack rest hrest
      have hitems : ∀ v ∈ items, ReadsBack v :=
        fun v hv => ih v hv (hwhole.part (.item hv (.self v)))
      rw [run_of_next? (next?_chars hwhole hrest), laterChars, List.append_assoc]
      exact run_array hwhole hitems stack
  | object members ih =>
      intro stack rest hrest
      have hmembers : ∀ m ∈ members, ReadsBack m.2 :=
        fun m hm => ih m hm (hwhole.part (.member hm (.self m.2)))
      rw [run_of_next? (next?_chars hwhole hrest), laterChars, List.append_assoc]
      exact run_object hmembers stack
  | _ =>
      intro stack rest hrest
      exact run_of_next? (next?_chars hwhole hrest)

theorem run_nil (r : Reader) : r.run [] = r.document? := by
  rw [Reader.run]
  split
  · rfl
  · rename_i c rest hcons
    exact absurd hcons (by simp)

/-- The text of a value whose numbers are whole is its document. -/
theorem ofChars?_chars (hwhole : v.IsWhole) : Document.ofChars? v.chars = some v.document := by
  have hread := run_chars v hwhole [] [] endsNumeral_nil
  rw [List.append_nil] at hread
  rw [Document.ofChars?, Reader.start, hread]
  exact run_nil ⟨[], .finished v.document⟩

theorem ofBytes?_print (hwhole : v.IsWhole) :
    Document.ofBytes? (Utf8.encode v.print) = some v.document := by
  rw [Document.ofBytes?, Utf8.decode?_eq_some_iff.2 rfl, Option.bind_eq_bind, Option.bind_some,
    ← chars, ofChars?_chars hwhole]

/-- The record that the bytes of the text are is read from the document. -/
theorem recordOfBytes?_print (hwhole : v.IsWhole) :
    recordOfBytes? (Utf8.encode v.print) = v.document.record? (valueOf? v.print.length) := by
  rw [recordOfBytes?, Utf8.decode?_eq_some_iff.2 rfl, Option.bind_eq_bind, Option.bind_some,
    recordOfText?, ← chars, ofChars?_chars hwhole, Option.bind_eq_bind, Option.bind_some]

end ChannelRelay.Json
