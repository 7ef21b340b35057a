import ChannelRelay.Store.Ledger

/-!
# The credentials table

The same records behind a database that is spoken to in statements.  Each
statement is atomic; it is logged when it is sent, and it may be refused with a
code instead of being carried out.  The rows are listed in the order of their
primary key, the name with the version.

What a statement does is said by conditions on the rows: a select gives the rows
that meet one, an insert is refused if a row has its key, a delete counts the rows
that it takes away.  The calls of a store read its answers from that: an insert
that is refused with `uniqueViolation` is a conflict, and a delete of no rows found
no match.

A full read asks for one page after the other: each page starts after the last key
of the page before, and a page that is not full is the last one.
-/

namespace ChannelRelay

/-- A statement on the table. -/
inductive Statement where
  | query (name : String)
  /-- The first rows after a key, at most `limit`. -/
  | page (after : Key) (limit : Nat)
  | insert (c : Credential)
  | delete (name : String) (version : Int32) (token : String)
deriving DecidableEq, Repr

/-- The code of an insert whose key is taken. -/
def uniqueViolation : String := "23505"

/-- The table, with the faults that coming statements meet and the statements sent. -/
structure Table where
  rows : Ledger
  /-- The code that each coming statement is refused with, if it is. -/
  faults : List (Option String)
  /-- The statements sent, last first. -/
  sent : List Statement

namespace Table

/-- A table that refuses nothing. -/
def ofLedger (rows : Ledger) : Table := ⟨rows, [], []⟩

/-- Sends a statement: the code it is refused with, if it is, and the table after
the statement is logged. -/
def send (t : Table) (s : Statement) : Option String × Table :=
  ((t.faults.head?).join, ⟨t.rows, t.faults.drop 1, s :: t.sent⟩)

/-- The error of a refused statement. -/
def refusal (code : String) : StoreError :=
  .database (.refused ("simulated " ++ code))

/-! ## What statements do with the rows -/

/-- The rows with a name, sorted by their versions. -/
def rowsNamed (rows : Ledger) (name : String) : List Credential :=
  (rows.records.filter (·.channelName == name)).mergeSort fun a b => a.version ≤ b.version

/-- Whether a row has a key. -/
def isTaken (rows : Ledger) (k : Key) : Bool :=
  rows.records.any (·.key == k)

theorem withRow_ascending (rows : Ledger) (c : Credential) :
    (rows.records.filter (·.key.Before c.key) ++
      c :: rows.records.filter (c.key.Before ·.key)).Pairwise Credential.Precedes := by
  refine List.pairwise_append.2 ⟨rows.ascending.filter _, ?_, ?_⟩
  · refine List.pairwise_cons.2 ⟨fun d hd => ?_, rows.ascending.filter _⟩
    simpa using (List.mem_filter.1 hd).2
  · intro d hd e he
    have hbefore : d.key.Before c.key := by simpa using (List.mem_filter.1 hd).2
    rcases List.mem_cons.1 he with rfl | he
    · exact hbefore
    · have hafter : c.key.Before e.key := by simpa using (List.mem_filter.1 he).2
      exact hbefore.trans hafter

/-- The rows and a new one, which stands between those with lesser keys and those with
greater ones. -/
def withRow (rows : Ledger) (c : Credential) : Ledger where
  records := rows.records.filter (·.key.Before c.key) ++
    c :: rows.records.filter (c.key.Before ·.key)
  ascending := withRow_ascending rows c

/-- Whether a delete for a name, a version and a token means a row. -/
def isMeant (name : String) (version : Int32) (token : String) (c : Credential) : Bool :=
  c.channelName == name && c.version == version && c.token == token

/-- The rows that are not meant. -/
def withoutRows (rows : Ledger) (meant : Credential → Bool) : Ledger where
  records := rows.records.filter fun c => !meant c
  ascending := rows.ascending.filter _

/-- Selects the rows with a name in the order of their versions, or fails with the code that
the statement is refused with. -/
def select (t : Table) (name : String) : Except String (List Credential) × Table :=
  match t.send (.query name) with
  | (some code, t) => (.error code, t)
  | (none, t) => (.ok (rowsNamed t.rows name), t)

/-- Inserts a row.  The primary key refuses a row whose key is taken. -/
def insert (t : Table) (c : Credential) : Except String Unit × Table :=
  match t.send (.insert c) with
  | (some code, t) => (.error code, t)
  | (none, t) =>
    if isTaken t.rows c.key then (.error uniqueViolation, t)
    else (.ok (), { t with rows := withRow t.rows c })

/-- Deletes all rows with a name, a version and a token, and counts them. -/
def deleteRows (t : Table) (name : String) (version : Int32) (token : String) :
    Except String Nat × Table :=
  match t.send (.delete name version token) with
  | (some code, t) => (.error code, t)
  | (none, t) =>
    let meant := isMeant name version token
    (.ok (t.rows.records.countP meant), { t with rows := withoutRows t.rows meant })

/-! ## The calls of a store -/

/-- The records under a name. -/
def query (t : Table) (name : String) : Except StoreError (List Credential) × Table :=
  match t.select name with
  | (.error code, t) => (.error (refusal code), t)
  | (.ok rows, t) => (.ok rows, t)

/-- Inserts a record.  That its key is taken shows by the code of the refusal alone: the key
is not looked up before. -/
def save (t : Table) (c : Credential) : Except StoreError Unit × Table :=
  match t.insert c with
  | (.ok (), t) => (.ok (), t)
  | (.error code, t) =>
    (.error (if code = uniqueViolation then .conflict c.channelName c.version
      else refusal code), t)

/-- Deletes the record with the key and the token of `c`; that no row is affected
means that there is none. -/
def delete (t : Table) (c : Credential) : Except StoreError Unit × Table :=
  match t.deleteRows c.channelName c.version c.token with
  | (.error code, t) => (.error (refusal code), t)
  | (.ok affected, t) =>
    (if affected = 0 then .error (.noMatch c.channelName c.version) else .ok (), t)

/-! ## Full reads -/

/-- How many rows a page has at most. -/
def pageSize : Nat := 500

/-- The rows after a key, in order, at most a page of them. -/
def rowsAfter (rows : Ledger) (after : Key) : List Credential :=
  (rows.records.filter fun c => after.Before c.key).take pageSize

/-- Reads one page. -/
def page (t : Table) (after : Key) : Except StoreError (List Credential) × Table :=
  match t.send (.page after pageSize) with
  | (some code, t) => (.error (refusal code), t)
  | (none, t) => (.ok (rowsAfter t.rows after), t)

/-- The key that a full read starts after. -/
def scanStart : Key := .first ""

/-- Where a full read goes on after a page: after its last row if the page is full,
and nowhere otherwise. -/
def nextStart? (page : List Credential) : Option Key :=
  if page.length < pageSize then none else page.getLast?.map Credential.key

theorem page_rows {t : Table} {after : Key} : (t.page after).2.rows = t.rows := by
  unfold page send
  split <;> simp_all <;> grind

theorem page_eq_rowsAfter {t : Table} {after : Key} {rows : List Credential}
    (h : (t.page after).1 = .ok rows) : rows = rowsAfter t.rows after := by
  unfold page send at h
  split at h <;> simp_all
  grind

/-- The rows after the last row of a page are fewer than those after its start. -/
theorem rest_shorter {records : List Credential} {after next : Key}
    (h : ∃ c ∈ records, after.Before c.key ∧ c.key = next) :
    (records.filter fun c => next.Before c.key).length <
      (records.filter fun c => after.Before c.key).length := by
  obtain ⟨c, hc, hafter, rfl⟩ := h
  have hsub : ∀ d : Credential, c.key.Before d.key → after.Before d.key :=
    fun d hd => hafter.trans hd
  rw [← List.countP_eq_length_filter, ← List.countP_eq_length_filter]
  induction records with
  | nil => simp at hc
  | cons d rest ih =>
    have hle : rest.countP (fun e => decide (c.key.Before e.key)) ≤
        rest.countP (fun e => decide (after.Before e.key)) :=
      List.countP_mono_left fun e _ he => by simpa using hsub e (by simpa using he)
    rw [List.countP_cons, List.countP_cons]
    rcases List.mem_cons.1 hc with rfl | hc
    · have hself := Key.not_before_self c.key
      simp only [hself, hafter, decide_false, decide_true, if_true]
      simp
      omega
    · have := ih hc
      have hd := hsub d
      by_cases h1 : c.key.Before d.key
      · simp [h1, hd h1]
        omega
      · simp [h1]
        split <;> omega

/-- Reads page after page from a key on; `done` holds the rows of the pages before. -/
def scanFrom (t : Table) (done : List Credential) (after : Key) :
    Except StoreError (List Credential) × Table :=
  match _hpage : (t.page after).1 with
  | .error e => (.error e, (t.page after).2)
  | .ok rows =>
    match _hnext : nextStart? rows with
    | none => (.ok (done ++ rows), (t.page after).2)
    | some next => scanFrom (t.page after).2 (done ++ rows) next
termination_by (t.rows.records.filter fun c => after.Before c.key).length
decreasing_by
  rw [page_rows]
  refine rest_shorter ?_
  have hrows := page_eq_rowsAfter (by assumption)
  have hnext := ‹nextStart? rows = some next›
  unfold nextStart? at hnext
  split at hnext
  · simp at hnext
  · obtain ⟨c, hlast, hkey⟩ := Option.map_eq_some_iff.1 hnext
    have hmem := List.mem_of_getLast? hlast
    rw [hrows] at hmem
    have := List.mem_filter.1 (List.mem_of_mem_take hmem)
    exact ⟨c, this.1, by simpa using this.2, hkey⟩

/-- Every row. -/
def scan (t : Table) : Except StoreError (List Credential) × Table :=
  t.scanFrom [] scanStart

end Table

end ChannelRelay
