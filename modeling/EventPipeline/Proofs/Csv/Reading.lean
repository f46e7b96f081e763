import EventPipeline.Consumer.Assembly
/-!
# Rows can be read back

A plain reader of comma separated rows (`Csv.read`): a field is either bare, up to the
next comma or line feed, or stands between quotes, with quotes inside it doubled. It
finds in the rows written for any fields exactly these fields (`Csv.read_rows`). What a
marshaler of rows makes of some events is read back as one row for each event, with
what its columns show of it.
-/
namespace EventPipeline

namespace Csv

/-! ## A plain reader -/

/-- Where a reader is within a row: behind a quote inside a quoted field it is `closed`, for the
field ends there unless another quote follows. -/
inductive Place
  | rowStart | fieldStart | bare | quoted | closed
deriving DecidableEq

/-- A reader: the rows it has read, the fields before the one it is in, and what it has read of
that one. -/
structure Reader where
  place : Place := .rowStart
  rows : List (List (List Char)) := []
  fields : List (List Char) := []
  field : List Char := []
deriving DecidableEq

namespace Reader

/-- End the field at a comma, and the row as well at a line feed. -/
def finish (r : Reader) (c : Char) : Option Reader :=
  if c = ',' then
    some { place := .fieldStart, rows := r.rows, fields := r.fields ++ [r.field] }
  else if c = '\n' then some { rows := r.rows ++ [r.fields ++ [r.field]] }
  else none

/-- Read a character of a bare field, or end it. -/
def readBare (r : Reader) (c : Char) : Option Reader :=
  r.finish c <|> some { r with place := .bare, field := r.field ++ [c] }

/-- Read the first character of a field. -/
def start (r : Reader) (c : Char) : Option Reader :=
  if c = '"' then some { r with place := .quoted } else r.readBare c

/-- Read a character. An empty line is a row of one empty field if there is one column, and else
none at all. -/
def next (columns : Nat) (r : Reader) (c : Char) : Option Reader :=
  match r.place with
  | .rowStart => if c = '\n' ∧ columns ≠ 1 then some r else r.start c
  | .fieldStart => r.start c
  | .bare => r.readBare c
  | .quoted =>
    if c = '"' then some { r with place := .closed }
    else some { r with field := r.field ++ [c] }
  | .closed =>
    if c = '"' then some { r with place := .quoted, field := r.field ++ [c] } else r.finish c

/-- Read some characters. -/
def feed (columns : Nat) (r : Reader) (text : List Char) : Option Reader :=
  text.foldlM (next columns) r

end Reader

/-- The rows of a text, unless it breaks off within a row or goes on behind a closing quote. -/
def read (columns : Nat) (text : List Char) : Option (List (List (List Char))) :=
  ((Reader.feed columns {} text).filter (fun r => r.place = .rowStart)).map Reader.rows

/-! ## What is written is read back -/

/-- What can stand without quotes has no separator and no quote in it. -/
theorem plain_of_not_needsQuotes {value : List Char} (h : ¬needsQuotes value) :
    ∀ c ∈ value, c ≠ ',' ∧ c ≠ '"' ∧ c ≠ '\n' := by
  intro c hc
  have hany : value.any (fun c => c = ',' || c = '"' || c = '\r' || c = '\n') = false := by
    simp only [needsQuotes, Bool.or_eq_true, not_or] at h
    exact Bool.eq_false_iff.2 h.1.2
  have hnone := List.any_eq_false.1 hany c hc
  refine ⟨?_, ?_, ?_⟩ <;> rintro rfl <;> exact hnone rfl

namespace Reader

variable {columns : Nat} {r : Reader}

theorem feed_cons {s : Reader} {c : Char} (h : r.next columns c = some s) (text : List Char) :
    r.feed columns (c :: text) = s.feed columns text := by
  rw [feed, List.foldlM_cons, h]
  rfl

theorem feed_append {s : Reader} {text : List Char} (h : r.feed columns text = some s)
    (more : List Char) : r.feed columns (text ++ more) = s.feed columns more := by
  rw [feed, List.foldlM_append, ← feed, h]
  rfl

theorem readBare_of_ne {c : Char} (hcomma : c ≠ ',') (hline : c ≠ '\n') :
    r.readBare c = some { r with place := .bare, field := r.field ++ [c] } := by
  simp [readBare, finish, hcomma, hline]

theorem readBare_of_finish {c : Char} {s : Reader} (h : r.finish c = some s) :
    r.readBare c = some s := by
  simp [readBare, h]

/-- Between quotes a reader takes doubled quotes for single ones. -/
theorem feed_doubled (hr : r.place = .quoted) (value : List Char) :
    r.feed columns (doubled value) = some { r with field := r.field ++ value } := by
  induction value generalizing r with
  | nil => simp [feed, doubled]
  | cons c rest ih =>
    have hgo : { r with field := r.field ++ [c] }.feed columns (doubled rest) =
        some { r with field := r.field ++ c :: rest } := by
      simpa using ih (r := { r with field := r.field ++ [c] }) hr
    by_cases hc : c = '"'
    · have hfirst : r.next columns '"' = some { r with place := .closed } := by simp [next, hr]
      have hsecond : next columns { r with place := .closed } '"' =
          some { r with field := r.field ++ [c] } := by simp [next, hr, hc]
      rw [doubled, if_pos hc, feed_cons hfirst, feed_cons hsecond, hgo]
    · have hnext : r.next columns c = some { r with field := r.field ++ [c] } := by
        simp [next, hr, hc]
      rw [doubled, if_neg hc, feed_cons hnext, hgo]

/-- What can stand without quotes is read as it is. -/
theorem feed_bare (hr : r.place = .bare) {value : List Char}
    (hplain : ∀ c ∈ value, c ≠ ',' ∧ c ≠ '\n') :
    r.feed columns value = some { r with field := r.field ++ value } := by
  induction value generalizing r with
  | nil => simp [feed]
  | cons c rest ih =>
    obtain ⟨hcomma, hline⟩ := hplain c List.mem_cons_self
    have hnext : r.next columns c = some { r with field := r.field ++ [c] } := by
      simp only [next, hr, readBare_of_ne hcomma hline]
    have hgo := ih (r := { r with field := r.field ++ [c] }) hr
      fun c hc => hplain c (List.mem_cons_of_mem _ hc)
    rw [feed_cons hnext, hgo]
    simp

/-- Where a field starts, the reader starts it, except for an empty line that is no row. -/
theorem next_start (hr : r.place = .rowStart ∨ r.place = .fieldStart) {c : Char}
    (hc : r.place = .rowStart → c ≠ '\n' ∨ columns = 1) : r.next columns c = r.start c := by
  rcases hr with hr | hr
  · have hno : ¬(c = '\n' ∧ columns ≠ 1) := fun h => (hc hr).elim (· h.1) h.2
    simp [next, hr, if_neg hno]
  · simp [next, hr]

/-- A field as it is written, up to the character it ends with, is read as that field. -/
theorem feed_field (hr : r.place = .rowStart ∨ r.place = .fieldStart) (hempty : r.field = [])
    {value : List Char} {c : Char} (hc : c = ',' ∨ c = '\n')
    (hline : r.place = .rowStart → value ≠ [] ∨ c = ',' ∨ columns = 1) :
    r.feed columns (Csv.field value ++ [c]) = { r with field := value }.finish c := by
  have hquote : c ≠ '"' := by rcases hc with rfl | rfl <;> decide
  obtain ⟨s, hs⟩ : ∃ s, { r with field := value }.finish c = some s := by
    rcases hc with rfl | rfl <;> exact ⟨_, rfl⟩
  rw [hs]
  by_cases hq : needsQuotes value
  · have hopen : r.next columns '"' = some { r with place := .quoted } :=
      (next_start hr fun _ => .inl (by decide)).trans rfl
    have hinside : feed columns { r with place := .quoted } (doubled value) =
        some { r with place := .quoted, field := value } := by
      rw [feed_doubled rfl, hempty, List.nil_append]
    have hclose : next columns { r with place := .quoted, field := value } '"' =
        some { r with place := .closed, field := value } := rfl
    have hend : next columns { r with place := .closed, field := value } c = some s :=
      (if_neg hquote).trans hs
    rw [Csv.field, if_pos hq, List.append_assoc, List.cons_append, feed_cons hopen,
      feed_append hinside, List.singleton_append, feed_cons hclose, feed_cons hend]
    rfl
  · rw [Csv.field, if_neg hq]
    cases value with
    | nil =>
      have hstart : r.next columns c = r.start c := by
        refine next_start hr fun hplace => ?_
        rcases hline hplace with h | h | h
        · exact absurd rfl h
        · exact .inl (by rw [h]; decide)
        · exact .inr h
      have hnext : r.next columns c = some s := by
        rw [hstart, start, if_neg hquote]
        exact readBare_of_finish (by rw [← hs, ← hempty])
      rw [List.nil_append, feed_cons hnext]
      rfl
    | cons d rest =>
      have hplain := plain_of_not_needsQuotes hq
      obtain ⟨hcomma, hquote, hfeed⟩ := hplain d List.mem_cons_self
      have hfirst : r.next columns d = some { r with place := .bare, field := [d] } := by
        rw [next_start hr fun _ => .inl hfeed, start, if_neg hquote, readBare_of_ne hcomma hfeed,
          hempty]
        rfl
      have hinside : feed columns { r with place := .bare, field := [d] } rest =
          some { r with place := .bare, field := d :: rest } := by
        refine feed_bare rfl fun x hx => ?_
        have h := hplain x (List.mem_cons_of_mem _ hx)
        exact ⟨h.1, h.2.2⟩
      have hend : next columns { r with place := .bare, field := d :: rest } c = some s :=
        readBare_of_finish hs
      rw [List.cons_append, feed_cons hfirst, feed_append hinside, feed_cons hend]
      rfl

/-- A row is read as its fields. -/
theorem feed_row {value : List Char} {more : List (List Char)}
    (hr : r.place = .rowStart ∨ r.place = .fieldStart) (hempty : r.field = [])
    (hline : r.place = .rowStart → more ≠ [] ∨ columns = 1) :
    r.feed columns (row (value :: more)) =
      some { rows := r.rows ++ [r.fields ++ value :: more] } := by
  induction more generalizing r value with
  | nil =>
    have hone : r.place = .rowStart → columns = 1 := fun h =>
      (hline h).resolve_left (fun h => h rfl)
    exact feed_field hr hempty (.inr rfl) fun h => .inr (.inr (hone h))
  | cons value' more ih =>
    have hfirst : r.feed columns (Csv.field value ++ [',']) =
        some { place := .fieldStart, rows := r.rows, fields := r.fields ++ [value] } :=
      feed_field hr hempty (.inl rfl) fun _ => .inr (.inl rfl)
    have hsplit : row (value :: value' :: more) =
        Csv.field value ++ [','] ++ row (value' :: more) := by
      simp [row]
    rw [hsplit, feed_append hfirst, ih (.inr rfl) rfl (by simp)]
    simp

theorem feed_rows {rows : List (List (List Char))} (done : List (List (List Char)))
    (hrows : ∀ fields ∈ rows, fields ≠ [] ∧ fields.length = columns) :
    Reader.feed columns { rows := done } (rows.flatMap row) = some { rows := done ++ rows } := by
  induction rows generalizing done with
  | nil => simp [feed]
  | cons fields rows ih =>
    obtain ⟨hne, hlength⟩ := hrows fields List.mem_cons_self
    obtain ⟨value, more, rfl⟩ := List.exists_cons_of_ne_nil hne
    have hline : more ≠ [] ∨ columns = 1 := by
      by_cases hmore : more = []
      · exact .inr (by simp [← hlength, hmore])
      · exact .inl hmore
    have hfirst : Reader.feed columns { rows := done } (row (value :: more)) =
        some { rows := done ++ [value :: more] } :=
      feed_row (.inl rfl) rfl fun _ => hline
    rw [List.flatMap_cons, feed_append hfirst,
      ih _ fun fields hf => hrows fields (List.mem_cons_of_mem _ hf)]
    simp

end Reader

/-- Rows written one after the other are read back as they were, if they have as many fields as
there are columns, and at least one. -/
theorem read_rows {columns : Nat} {rows : List (List (List Char))}
    (hrows : ∀ fields ∈ rows, fields ≠ [] ∧ fields.length = columns) :
    read columns (rows.flatMap row) = some rows := by
  rw [read, Reader.feed_rows [] hrows]
  rfl

example : read 2 (row [[' ', 'a'], ['"', '\n', ',']] ++ row [[], ['\\', '.']]) =
    some [[[' ', 'a'], ['"', '\n', ',']], [[], ['\\', '.']]] := by decide

end Csv

/-! ## What a marshaler writes -/

namespace Marshaler

theorem columns_eq_ok {names : List String} {fields : List Field}
    (h : columns names = .ok fields) : names.map Field.ofName? = fields.map some := by
  induction names generalizing fields with
  | nil =>
    obtain rfl := Except.ok.inj h
    rfl
  | cons name names ih =>
    cases hname : Field.ofName? name with
    | none => simp [columns, hname] at h
    | some field =>
      cases hnames : columns names with
      | error e => simp [columns, hname, hnames, Functor.map, Except.map] at h
      | ok more =>
        simp only [columns, hname, hnames, Functor.map, Except.map, Except.ok.injEq] at h
        rw [← h, List.map_cons, List.map_cons, hname, ih hnames]

theorem ofHeaders_eq_ok {headers : List String} {k : Marshaler} (h : ofHeaders headers = .ok k) :
    headers ≠ [] ∧ ∃ fields, k = .csv fields ∧ headers.map Field.ofName? = fields.map some := by
  unfold ofHeaders at h
  split at h
  next => cases h
  next hne =>
    cases hfields : columns headers with
    | error e => simp [hfields, Functor.map, Except.map] at h
    | ok fields =>
      simp only [hfields, Functor.map, Except.map, Except.ok.injEq] at h
      exact ⟨hne, fields, h.symm, columns_eq_ok hfields⟩

/-- The records of some events, one after the other, are a text. -/
theorem toText?_records (k : Marshaler) (events : List Event) :
    Bytes.toText? (events.flatMap k.record) = some (String.ofList (events.flatMap k.chars)) := by
  have hbytes : events.flatMap k.record =
      Bytes.ofText (String.ofList (events.flatMap k.chars)) := by
    induction events with
    | nil => rfl
    | cons e events ih =>
      rw [List.flatMap_cons, List.flatMap_cons, ih, String.ofList_append]
      simp [record, Bytes.ofText]
  rw [hbytes, Bytes.toText?_ofText]

/-- Whatever columns a marshaler of rows was made for: no event is refused by a sink that uses it,
and all its records together are read back as one row for each event, in order, with what each
column shows of the event. -/
theorem rows_read_back {headers : List String} {k : Marshaler} (h : ofHeaders headers = .ok k)
    (events : List Event) :
    (∀ (a : Consumer.Assembly) n (m : Sink.Message), a.marshaler = k →
      a.setup.sink.marshal n m = .ok (k.record m.event)) ∧
    ∃ (fields : List Field) (text : String), headers.map Field.ofName? = fields.map some ∧
      Bytes.toText? (events.flatMap k.record) = some text ∧
      Csv.read headers.length text.toList =
        some (events.map (fun e => fields.map (Field.chars e))) := by
  obtain ⟨hne, fields, rfl, hfields⟩ := ofHeaders_eq_ok h
  have hlength : fields.length = headers.length := by
    simpa using (congrArg List.length hfields).symm
  refine ⟨?_, fields, _, hfields, toText?_records _ events, ?_⟩
  · rintro a n m ha
    rw [← ha]
    rfl
  · rw [String.toList_ofList]
    have hrows : events.flatMap (chars (.csv fields)) =
        (events.map (fun e => fields.map (Field.chars e))).flatMap Csv.row := by
      rw [List.flatMap_map]
      rfl
    rw [hrows]
    refine Csv.read_rows fun row hrow => ?_
    obtain ⟨e, -, rfl⟩ := List.mem_map.1 hrow
    refine ⟨fun hnil => hne ?_, by rw [List.length_map, hlength]⟩
    rw [List.map_eq_nil_iff] at hnil
    simpa [hnil] using hfields

/-- An event whose name breaks a line and holds a quote, and one without a name. -/
theorem rows_read_back_brokenLine : ∃ text,
    Bytes.toText? ([Event.default.set .event "\"a\",\n", Event.default].flatMap
      (record (.csv [.member .event]))) = some text ∧
    Csv.read 1 text.toList = some [[['"', 'a', '"', ',', '\n']], [[]]] := by
  have hk : ofHeaders ["Event"] = .ok (.csv [.member .event]) := rfl
  obtain ⟨-, fields, text, hfields, htext, hread⟩ :=
    rows_read_back hk [Event.default.set .event "\"a\",\n", Event.default]
  have hname : ["Event"].map Field.ofName? = [Field.member .event].map some := rfl
  have hone : fields = [.member .event] :=
    (List.map_inj_right fun _ _ => Option.some.inj).1 (hfields.symm.trans hname)
  refine ⟨text, htext, hread.trans ?_⟩
  rw [hone]
  rfl

end Marshaler

end EventPipeline
