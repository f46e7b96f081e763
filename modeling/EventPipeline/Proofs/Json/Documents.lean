import EventPipeline.Decoder
import EventPipeline.Proofs.Json.Extent
/-!
# Objects read member by member

The members of an object are read one after the other, each up to the white space behind its value
(`readEntries_member`, `readMembers_item`), so an event depends on the named members of a document
only: not on their order, the spelling of their strings, the white space, or what stands under
other names (`decode_document`). If an object is read at all, no member is given twice in it,
whatever stands around it (`given_once_of_readMembers`).
-/
namespace EventPipeline

namespace Json

open Bytes (ofChars ofChars_cons_ascii ofChars_append ofChars_enclosed)

variable {more rest : Bytes}

/-! ## Keys -/

/-- What stands in front of a member: a comma, unless it is the first. -/
def lead (first : Bool) : List Char := if first then [] else [',']

/-- The next key is read where the white space after its comma ends. -/
theorem nextKey_member (first : Bool) (b : Blank) (g : Gaps) (key value : List Char)
    (rest : Bytes) :
    nextKey first (ofChars b.chars ++ (ofChars (lead first) ++
        (ofChars (g.member key value) ++ rest))) =
      (readString (ofChars key ++ byte '"' :: (ofChars (g.behindKey value) ++ rest))).map
        (fun p => (some p.1, p.2)) := by
  cases first with
  | true =>
    rw [lead, if_pos rfl, Bytes.ofChars_nil, List.nil_append, nextKey, skipBlank_blank,
      skipBlank_member]
    simp only [if_neg (show byte '"' ≠ byte '}' by decide), if_true]
  | false =>
    rw [lead, if_neg (by decide), ofChars_cons_ascii (by decide), Bytes.ofChars_nil,
      List.singleton_append, nextKey, skipBlank_blank, skipBlank_cons (by decide)]
    simp only [if_neg (show byte ',' ≠ byte '}' by decide), Bool.false_eq_true, if_false, if_true,
      skipBlank_member]

theorem nextKey_spelled (first : Bool) (b : Blank) (g : Gaps) {name : String} {key : List Char}
    (h : Spelled name.toList key) (value : List Char) (rest : Bytes) :
    nextKey first (ofChars b.chars ++ (ofChars (lead first) ++
        (ofChars (g.member key value) ++ rest))) =
      .ok (some name, ofChars (g.behindKey value) ++ rest) := by
  rw [nextKey_member, readString_spelled h]
  rfl

theorem nextKey_close (first : Bool) (b : Blank) (rest : Bytes) :
    nextKey first (ofChars b.chars ++ byte '}' :: rest) = .ok (none, rest) := by
  rw [nextKey, skipBlank_blank, skipBlank_cons (by decide)]
  exact if_pos rfl

theorem readColon_behindKey (g : Gaps) (value : List Char) (rest : Bytes) :
    readColon (ofChars (g.behindKey value) ++ rest) =
      .ok (ofChars g.beforeValue.chars ++
        (ofChars value ++ (ofChars g.afterValue.chars ++ rest))) := by
  rw [readColon, skipBlank_behindKey]
  exact if_pos rfl

/-! ## Values of members -/

theorem readText_spelled (b : Blank) {s : String} {raw : List Char} (h : Spelled s.toList raw)
    (rest : Bytes) :
    readText (ofChars b.chars ++ (ofChars ('"' :: (raw ++ ['"'])) ++ rest)) = .ok (s, rest) := by
  rw [readText, skipBlank_blank, ofChars_enclosed (by decide) (by decide),
    skipBlank_cons (by decide)]
  simp only [if_true, readString_spelled h]

theorem readEntries_end {first : Bool} {done : List (String × String)} {bs : Bytes}
    (hkey : nextKey first bs = .ok (none, rest)) :
    readEntries first done bs = .ok (done, rest) := by
  rw [readEntries]
  split
  next h => rw [hkey] at h; cases h
  next h => rw [hkey] at h; cases h; rfl
  next h => rw [hkey] at h; cases h

theorem readEntries_entry {first : Bool} {done : List (String × String)} {key value : String}
    {bs colon : Bytes} (hkey : nextKey first bs = .ok (some key, colon))
    (hcolon : readColon colon = .ok more) (hvalue : readText more = .ok (value, rest)) :
    readEntries first done bs = readEntries false (done ++ [(key, value)]) rest := by
  rw [readEntries]
  split
  next h => rw [hkey] at h; cases h
  next h => rw [hkey] at h; cases h
  next h =>
    rw [hkey] at h
    cases h
    split
    next h => rw [hcolon] at h; cases h
    next h =>
      rw [hcolon] at h
      cases h
      split
      next h => rw [hvalue] at h; cases h
      next h => rw [hvalue] at h; cases h; rfl

theorem readEntries_member {first : Bool} {done : List (String × String)} (b : Blank)
    {entry : String × String} {cs : List Char} (h : EntryWritten entry cs) (rest : Bytes) :
    ∃ b' : Blank, readEntries first done (ofChars b.chars ++ (ofChars (lead first) ++
        (ofChars cs ++ rest))) =
      readEntries false (done ++ [entry]) (ofChars b'.chars ++ rest) := by
  obtain ⟨g, key, value, hkey, hvalue, rfl⟩ := h
  exact ⟨g.afterValue, readEntries_entry (nextKey_spelled first b g hkey _ rest)
    (readColon_behindKey g _ rest) (readText_spelled g.beforeValue hvalue _)⟩

theorem readEntries_listed {entries : List (String × String)} {cs : List Char}
    (h : Listed EntryWritten entries cs) (first : Bool) (done : List (String × String)) (b : Blank)
    (rest : Bytes) :
    readEntries first done (ofChars b.chars ++ (ofChars (lead first) ++
      (ofChars cs ++ byte '}' :: rest))) = .ok (done ++ entries, rest) := by
  induction h generalizing first done b with
  | last h =>
    obtain ⟨b', hentry⟩ := readEntries_member b h (byte '}' :: rest)
    rw [hentry]
    exact readEntries_end (nextKey_close false b' rest)
  | @cons x xs cs ds h hs ih =>
    obtain ⟨b', hentry⟩ := readEntries_member b h
      (ofChars (lead false) ++ (ofChars ds ++ byte '}' :: rest))
    rw [ofChars_append, List.append_assoc, ofChars_cons_ascii (by decide)]
    refine hentry.trans ((ih false _ b').trans ?_)
    rw [List.append_assoc, List.singleton_append]

theorem readProperties_object {d : Properties} {entries : List (String × String)}
    (hperm : entries.Perm d.entries) {cs : List Char} (h : Object EntryWritten entries cs)
    (b : Blank) (rest : Bytes) :
    readProperties (ofChars b.chars ++ (ofChars cs ++ rest)) = .ok (d, rest) := by
  have hbody : ∀ body,
      readEntries true [] (ofChars body ++ byte '}' :: rest) = .ok (entries, rest) →
      readProperties (ofChars b.chars ++ (ofChars ('{' :: (body ++ ['}'])) ++ rest)) =
        .ok (d, rest) := by
    intro body hread
    rw [ofChars_enclosed (by decide) (by decide), readProperties, skipBlank_blank,
      skipBlank_cons (by decide)]
    simp only [if_true, hread, Except.map, Dict.ofList_of_perm hperm]
  cases h with
  | empty b' => exact hbody b'.chars (readEntries_end (nextKey_close ..))
  | @members _ body h => exact hbody body (readEntries_listed h true [] .empty rest)

/-- A value is read from any text that stands for it, whatever its kind. -/
theorem readValue_valued {k : Kind} {v : k.Value} {cs : List Char} (h : Valued k v cs) (b : Blank)
    (hrest : Ended rest) :
    readValue k (ofChars b.chars ++ (ofChars cs ++ rest)) = .ok (v, rest) := by
  have hblank : ∀ expected bound bs, readInteger expected bound (ofChars b.chars ++ bs) =
      readInteger expected bound bs := by
    intro expected bound bs
    rw [readInteger, readInteger, skipBlank_blank]
  cases k with
  | text =>
    obtain ⟨raw, hraw, rfl⟩ := h
    exact readText_spelled b hraw rest
  | int32 =>
    obtain rfl : cs = _ := h
    have hlow : -((Int32.size / 2 : Nat) : Int) ≤ v.toInt := Int32.le_toInt v
    have hhigh : v.toInt < (Int32.size / 2 : Nat) := Int32.toInt_lt v
    rw [readValue, hblank, readInteger_write hlow hhigh (by decide) hrest]
    simp only [Except.map, Int32.ofInt_toInt]
  | int64 =>
    obtain rfl : cs = _ := h
    have hlow : -((Int64.size / 2 : Nat) : Int) ≤ v.toInt := Int64.le_toInt v
    have hhigh : v.toInt < (Int64.size / 2 : Nat) := Int64.toInt_lt v
    rw [readValue, hblank, readInteger_write hlow hhigh (Nat.le_refl _) hrest]
    simp only [Except.map, Int64.ofInt_toInt]
  | properties =>
    obtain ⟨entries, hperm, hobject⟩ := h
    exact readProperties_object hperm hobject b rest

/-! ## Members -/

theorem readMembers_end {first : Bool} {given : Given} {bs : Bytes}
    (hkey : nextKey first bs = .ok (none, rest)) :
    readMembers first given bs = .ok (given, rest) := by
  rw [readMembers]
  split
  next h => rw [hkey] at h; cases h
  next h => rw [hkey] at h; cases h; rfl
  next h => rw [hkey] at h; cases h

/-- What stands under another name is skipped. -/
theorem readMembers_unknown {first : Bool} {given : Given} {key : String} {bs colon : Bytes}
    (hkey : nextKey first bs = .ok (some key, colon)) (hname : Member.ofName? key = none)
    (hcolon : readColon colon = .ok more) :
    readMembers first given bs =
      (skipValue more).bind (fun rest => readMembers false given rest) := by
  rw [readMembers]
  split
  next h => rw [hkey] at h; cases h
  next h => rw [hkey] at h; cases h
  next h =>
    rw [hkey] at h
    cases h
    split
    next h =>
      split
      next h => rw [hcolon] at h; cases h
      next h =>
        rw [hcolon] at h
        cases h
        split
        next h => exact (congrArg (fun r => Except.bind r _) h).symm
        next h => exact (congrArg (fun r => Except.bind r _) h).symm
    next h => rw [hname] at h; cases h

/-- A member is given the value behind its name, unless it was given before. -/
theorem readMembers_known {first : Bool} {given : Given} {key : String} {m : Member}
    {bs colon : Bytes} (hkey : nextKey first bs = .ok (some key, colon))
    (hname : Member.ofName? key = some m) (hcolon : readColon colon = .ok more) :
    readMembers first given bs = if given.has m then .error (.duplicate m)
      else (readValue m.kind more).bind
        (fun p => readMembers false (given ++ [⟨m, p.1⟩]) p.2) := by
  rw [readMembers]
  split
  next h => rw [hkey] at h; cases h
  next h => rw [hkey] at h; cases h
  next h =>
    rw [hkey] at h
    cases h
    split
    next h => rw [hname] at h; cases h
    next h =>
      rw [hname] at h
      cases h
      by_cases hnew : given.has m = true
      · rw [if_pos hnew, if_pos hnew]
      · rw [if_neg hnew, if_neg hnew]
        split
        next h => rw [hcolon] at h; cases h
        next h =>
          rw [hcolon] at h
          cases h
          split
          next h => exact (congrArg (fun r => r.bind fun p =>
              readMembers false (given ++ [⟨m, p.1⟩]) p.2) h).symm
          next h => exact (congrArg (fun r => r.bind fun p =>
              readMembers false (given ++ [⟨m, p.1⟩]) p.2) h).symm

/-- Some members with the values they have in an event. -/
def givenBy (e : Event) (members : List Member) : Given := members.map (fun m => ⟨m, e.value m⟩)

/-- What stands in a document: a member of an event, or something under another name. -/
inductive Item
  | known (m : Member)
  | other (name : String)
deriving DecidableEq

namespace Item

/-- The member, if it is one. -/
def member? : Item → Option Member
  | known m => some m
  | other _ => none

/-- An item as it may be written in a document for the event `e`. -/
def Written (e : Event) : Item → List Char → Prop
  | known m, cs => ∃ (g : Gaps) (key value : List Char), Spelled m.name.toList key ∧
      Valued m.kind (e.value m) value ∧ cs = g.member key value
  | other name, cs => (∀ m : Member, m.name ≠ name) ∧ ∃ (g : Gaps) (key value : List Char),
      Spelled name.toList key ∧ Derives .value value ∧ cs = g.member key value

/-- The members among some items. -/
def members (items : List Item) : List Member := items.filterMap member?

theorem mem_members {items : List Item} {m : Member} : m ∈ members items ↔ known m ∈ items := by
  rw [members, List.mem_filterMap]
  constructor
  · rintro ⟨item, hitem, hm⟩
    cases item with
    | known n => rwa [← Option.some.inj hm]
    | other name => cases hm
  · intro hm
    exact ⟨_, hm, rfl⟩

theorem members_cons (item : Item) (items : List Item) :
    members (item :: items) = item.member?.toList ++ members items := by
  cases item <;> rfl

end Item

/-- A member is new if it is none of those given; after it was given, the others are still new. -/
theorem new_of_nodup {e : Event} {given : Given} {item : Item} {members : List Member}
    (h : (given.map (fun g => g.1) ++ (item.member?.toList ++ members)).Nodup) :
    (∀ m, item = .known m → given.has m = false) ∧
      ((given ++ givenBy e item.member?.toList).map (fun g => g.1) ++ members).Nodup := by
  constructor
  · rintro m rfl
    rw [Given.has, List.any_eq_false]
    intro g hg heq
    have hdisjoint := (List.nodup_append.1 h).2.2 g.1 (List.mem_map_of_mem hg) m
      List.mem_cons_self
    exact hdisjoint (of_decide_eq_true heq)
  · simpa [givenBy, Function.comp_def] using h

/-- An item is read up to the white space behind its value: a member is given its value, and
nothing comes of what stands under another name. -/
theorem readMembers_item {e : Event} {item : Item} {cs : List Char} (h : item.Written e cs)
    (first : Bool) (given : Given) (b : Blank)
    (hnew : ∀ m, item = .known m → given.has m = false) (rest : Bytes)
    (hrest : ∀ b : Blank, Ended (ofChars b.chars ++ rest)) :
    ∃ b' : Blank, readMembers first given (ofChars b.chars ++ (ofChars (lead first) ++
        (ofChars cs ++ rest))) =
      readMembers false (given ++ givenBy e item.member?.toList) (ofChars b'.chars ++ rest) := by
  cases item with
  | known m =>
    obtain ⟨g, key, value, hkey, hvalue, rfl⟩ := h
    refine ⟨g.afterValue, (readMembers_known (nextKey_spelled first b g hkey _ rest)
      (Member.ofName?_name m) (readColon_behindKey g _ rest)).trans ?_⟩
    rw [if_neg (by rw [hnew m rfl]; decide),
      readValue_valued hvalue g.beforeValue (hrest g.afterValue)]
    rfl
  | other name =>
    obtain ⟨hother, g, key, value, hkey, hvalue, rfl⟩ := h
    have hname : Member.ofName? name = none :=
      List.find?_eq_none.2 fun m _ hm => hother m (of_decide_eq_true hm)
    refine ⟨g.afterValue, (readMembers_unknown (nextKey_spelled first b g hkey _ rest) hname
      (readColon_behindKey g _ rest)).trans ?_⟩
    rw [skipValue_derives hvalue g.beforeValue (hrest g.afterValue), Item.member?, Option.toList,
      givenBy, List.map_nil, List.append_nil]
    rfl

/-- The items of a document are read with the values of their members. -/
theorem readMembers_listed {e : Event} {items : List Item} {cs : List Char}
    (h : Listed (Item.Written e) items cs) (first : Bool) (given : Given) (b : Blank)
    (hnew : (given.map (fun g => g.1) ++ Item.members items).Nodup) (rest : Bytes) :
    readMembers first given (ofChars b.chars ++ (ofChars (lead first) ++
        (ofChars cs ++ byte '}' :: rest))) =
      .ok (given ++ givenBy e (Item.members items), rest) := by
  induction h generalizing first given b with
  | @last item cs h =>
    rw [Item.members_cons] at hnew ⊢
    obtain ⟨hnew, -⟩ := new_of_nodup (e := e) hnew
    obtain ⟨b', hitem⟩ := readMembers_item h first given b hnew (byte '}' :: rest)
      fun b => ended_blank b (by decide) rest
    rw [hitem, readMembers_end (nextKey_close false b' rest)]
    simp [Item.members]
  | @cons item items cs ds h hs ih =>
    rw [Item.members_cons] at hnew ⊢
    obtain ⟨hnew, hmore⟩ := new_of_nodup (e := e) hnew
    obtain ⟨b', hitem⟩ := readMembers_item h first given b hnew
      (byte ',' :: (ofChars ds ++ byte '}' :: rest)) fun b => ended_blank b (by decide) _
    rw [ofChars_append, List.append_assoc, ofChars_cons_ascii (by decide)]
    refine hitem.trans ((ih false _ b' hmore).trans ?_)
    rw [List.append_assoc, givenBy, givenBy, givenBy, List.map_append]

/-- The members of an event are those of the object in a document. -/
theorem readEvent_document {α : Type} {Written : α → List Char → Prop} {xs : List α}
    {text : List Char} (h : Document Written xs text) : ∃ (body : List Char) (b : Blank),
      (xs = [] ∧ (∃ b : Blank, body = b.chars) ∨ Listed Written xs body) ∧
      readEvent (ofChars text) = readMembers true [] (ofChars body ++ byte '}' :: ofChars b.chars) ∧
      ofChars text ≠ [] := by
  have hbody : ∀ (b b' : Blank) (body : List Char),
      readEvent (ofChars (b.chars ++ ('{' :: (body ++ ['}']) ++ b'.chars))) =
        readMembers true [] (ofChars body ++ byte '}' :: ofChars b'.chars) ∧
      ofChars (b.chars ++ ('{' :: (body ++ ['}']) ++ b'.chars)) ≠ [] := by
    intro b b' body
    rw [ofChars_append, ofChars_append, ofChars_enclosed (by decide) (by decide), readEvent,
      skipBlank_blank, skipBlank_cons (by decide)]
    exact ⟨if_pos rfl, by simp⟩
  obtain ⟨b, b', hobject⟩ := h
  cases hobject with
  | empty b'' => exact ⟨_, b', .inl ⟨rfl, b'', rfl⟩, hbody b b' b''.chars⟩
  | @members _ body h => exact ⟨body, b', .inr h, hbody b b' body⟩

theorem skipBlank_end (b : Blank) : skipBlank (ofChars b.chars) = [] := by
  have hskip := skipBlank_blank b []
  rwa [List.append_nil] at hskip

/-- A document is decoded to the values of its members, with the default for all others. -/
theorem decode_document {e : Event} {items : List Item} {text : List Char}
    (h : Document (Item.Written e) items text) (honce : (Item.members items).Nodup) :
    decode (ofChars text) =
      .ok ⟨fun m => if .known m ∈ items then e.value m else m.kind.default⟩ := by
  obtain ⟨body, b, hbody, hread, -⟩ := readEvent_document h
  have hgiven : readEvent (ofChars text) =
      .ok (givenBy e (Item.members items), ofChars b.chars) := by
    rw [hread]
    rcases hbody with ⟨rfl, b', rfl⟩ | hlisted
    · exact readMembers_end (nextKey_close true b' _)
    · exact readMembers_listed hlisted true [] .empty honce (ofChars b.chars)
  have hedits : Event.ofEdits ((givenBy e (Item.members items)).map
      (fun g => .assign g.1 g.2)) =
        ⟨fun m => if .known m ∈ items then e.value m else m.kind.default⟩ := by
    rw [givenBy, Event.ofEdits, List.map_map, List.foldl_map]
    ext m
    refine (Event.value_foldl_set e .default _ m).trans ?_
    simp only [Item.mem_members]
    rfl
  simp only [decode, hgiven, skipBlank_end, if_true, hedits]

/-! ## Members given twice -/

/-- Any member of an object, whatever stands in its key and whatever its value. -/
def AnyMember (key cs : List Char) : Prop :=
  ∃ (g : Gaps) (value : List Char), Content key ∧ Derives .value value ∧ cs = g.member key value

theorem Given.has_append (given : Given) (m n : Member) (v : n.kind.Value) :
    Given.has (given ++ [⟨n, v⟩]) m = (given.has m || decide (n = m)) := by
  simp [Given.has]

/-- When the members of an object are read, each value ends where skipping ends, a member is given
once it was read, and it was not given before. -/
theorem readMembers_ok {first : Bool} {given result : Given} {key : String} {bs colon r : Bytes}
    (h : readMembers first given bs = .ok (result, r))
    (hkey : nextKey first bs = .ok (some key, colon)) (hcolon : readColon colon = .ok more) :
    ∃ given' rest, skipValue more = .ok rest ∧ readMembers false given' rest = .ok (result, r) ∧
      (∀ m, given.has m = true → given'.has m = true) ∧
      ∀ m, Member.ofName? key = some m → given.has m = false ∧ given'.has m = true := by
  cases hname : Member.ofName? key with
  | none =>
    rw [readMembers_unknown hkey hname hcolon] at h
    obtain ⟨rest, hskip, hmore⟩ := bind_eq_ok h
    refine ⟨given, rest, hskip, hmore, fun m hm => hm, fun m hm => ?_⟩
    cases hm
  | some n =>
    rw [readMembers_known hkey hname hcolon] at h
    split at h
    · cases h
    next hnew =>
      obtain ⟨⟨v, rest⟩, hvalue, hmore⟩ := bind_eq_ok h
      refine ⟨_, rest, skipValue_of_readValue hvalue, hmore, fun m hm => ?_, fun m hm => ?_⟩
      · rw [Given.has_append, hm, Bool.true_or]
      · cases hm
        rw [Given.has_append, decide_eq_true rfl, Bool.or_true]
        exact ⟨Bool.eq_false_iff.2 hnew, rfl⟩

/-- If an object is read at all, each member of it is read up to the white space behind its value,
and one of an event has not been given before. -/
theorem readMembers_anyMember {key cs : List Char} (h : AnyMember key cs) {first : Bool}
    {given result : Given} {b : Blank} {r : Bytes}
    (hrest : ∀ b : Blank, Ended (ofChars b.chars ++ rest))
    (hread : readMembers first given (ofChars b.chars ++ (ofChars (lead first) ++
      (ofChars cs ++ rest))) = .ok (result, r)) :
    ∃ (given' : Given) (b' : Blank),
      readMembers false given' (ofChars b'.chars ++ rest) = .ok (result, r) ∧
      (∀ m, given.has m = true → given'.has m = true) ∧
      ∀ m : Member, Spelled m.name.toList key → given.has m = false ∧ given'.has m = true := by
  obtain ⟨g, value, hkey, hvalue, rfl⟩ := h
  have hnext := nextKey_member first b g key value rest
  cases hname : readString (ofChars key ++ byte '"' :: (ofChars (g.behindKey value) ++ rest)) with
  | error err =>
    rw [hname] at hnext
    rw [readMembers] at hread
    split at hread
    · cases hread
    next h' => rw [hnext] at h'; cases h'
    next h' => rw [hnext] at h'; cases h'
  | ok p =>
    obtain ⟨name, colon⟩ := p
    have hcolon : colon = ofChars (g.behindKey value) ++ rest := by
      have hskip := skipContent_of_readString hname
      rw [skipContent_content hkey] at hskip
      exact (Except.ok.inj hskip).symm
    subst hcolon
    rw [hname] at hnext
    obtain ⟨given', rest', hskip, hmore, hkept, hnew⟩ :=
      readMembers_ok hread hnext (readColon_behindKey g value rest)
    rw [skipValue_derives hvalue g.beforeValue (hrest g.afterValue)] at hskip
    cases hskip
    refine ⟨given', g.afterValue, hmore, hkept, fun m hm => hnew m ?_⟩
    rw [readString_spelled hm] at hname
    cases hname
    exact Member.ofName?_name m

/-- If an object is read at all, no member of an event is given twice in it. -/
theorem given_once_of_readMembers {keys : List (List Char)} {cs : List Char}
    (h : Listed AnyMember keys cs) (first : Bool) {given result : Given} (b : Blank) {r : Bytes}
    (hread : readMembers first given (ofChars b.chars ++ (ofChars (lead first) ++
      (ofChars cs ++ byte '}' :: rest))) = .ok (result, r)) (m : Member) :
    (given.has m = true → ∀ key ∈ keys, ¬Spelled m.name.toList key) ∧
      keys.Pairwise (fun key key' => Spelled m.name.toList key → ¬Spelled m.name.toList key') := by
  induction h generalizing first given b with
  | @last key cs h =>
    obtain ⟨given', b', -, -, hnew⟩ :=
      readMembers_anyMember h (fun b => ended_blank b (by decide) rest) hread
    refine ⟨fun hm key' hkey' hspelled => ?_, List.pairwise_singleton ..⟩
    rw [List.mem_singleton.1 hkey'] at hspelled
    rw [(hnew m hspelled).1] at hm
    cases hm
  | @cons key keys cs ds h hs ih =>
    rw [ofChars_append, List.append_assoc, ofChars_cons_ascii (by decide)] at hread
    obtain ⟨given', b', hmore, hkept, hnew⟩ :=
      readMembers_anyMember h (fun b => ended_blank b (by decide) _) hread
    obtain ⟨hlater, hpairs⟩ := ih false b' hmore
    refine ⟨fun hm => List.forall_mem_cons.2 ⟨fun hspelled => ?_, hlater (hkept m hm)⟩,
      List.pairwise_cons.2 ⟨fun key' hkey' hspelled => ?_, hpairs⟩⟩
    · rw [(hnew m hspelled).1] at hm
      cases hm
    · exact hlater (hnew m hspelled).2 key' hkey'

/-- A document in which a member of an event is given twice is refused. -/
theorem decode_twice {keys : List (List Char)} {text : List Char} (h : Document AnyMember keys text)
    {m : Member} {key key' : List Char} (htwice : [key, key'].Sublist keys)
    (hkey : Spelled m.name.toList key) (hkey' : Spelled m.name.toList key') :
    ∃ err, decode (ofChars text) = .error err := by
  obtain ⟨body, b, hbody, hread, -⟩ := readEvent_document h
  cases hevent : readEvent (ofChars text) with
  | error err => exact ⟨err, by rw [decode, hevent]⟩
  | ok p =>
    obtain ⟨given, r⟩ := p
    rw [hread] at hevent
    rcases hbody with ⟨rfl, -⟩ | hlisted
    · cases htwice
    · have hpairs := (given_once_of_readMembers hlisted true .empty hevent m).2
      exact absurd hkey' (List.pairwise_iff_forall_sublist.1 hpairs htwice hkey)

end Json

namespace Decoder

/-- A document is never empty, so the decoder reads it. -/
theorem decode_chars {α : Type} {Written : α → List Char → Prop} {xs : List α} {text : List Char}
    (h : Json.Document Written xs text) : json.decode (Bytes.ofChars text) =
      (Json.decode (Bytes.ofChars text)).mapError .json := by
  obtain ⟨-, -, -, -, hne⟩ := Json.readEvent_document h
  rw [decode, if_neg hne]

/-- The decoder of documents depends on the named members only. A document that gives some members
the values they have in an event, in any order and each at most once, with any spelling of the
strings, any white space between the tokens and anything at all under other names, is decoded to
the event with these values and defaults otherwise. An object in which the name of a member occurs
twice is refused. -/
theorem named_members_count :
    (∀ (e : Event) (items : List Json.Item) (text : String),
      Json.Document (Json.Item.Written e) items text.toList →
      (Json.Item.members items).Nodup →
      json.decode (Bytes.ofText text) =
        .ok ⟨fun m => if .known m ∈ items then e.value m else m.kind.default⟩) ∧
    ∀ (m : Member) (keys : List (List Char)) (key key' : List Char) (text : String),
      Json.Document Json.AnyMember keys text.toList → [key, key'].Sublist keys →
      Json.Spelled m.name.toList key → Json.Spelled m.name.toList key' →
      ∃ err, json.decode (Bytes.ofText text) = .error err := by
  have hchars : ∀ text : String, Bytes.ofText text = Bytes.ofChars text.toList := by
    intro text
    rw [← Bytes.ofText_ofList, String.ofList_toList]
  constructor
  · intro e items text h honce
    rw [hchars, decode_chars h, Json.decode_document h honce]
    rfl
  · intro m keys key key' text h htwice hkey hkey'
    obtain ⟨err, herr⟩ := Json.decode_twice h htwice hkey hkey'
    rw [hchars, decode_chars h, herr]
    exact ⟨.json err, rfl⟩

section

open Json

/-- A single space. -/
def space : Blank := ⟨[' '], List.all_iff_forall_prop.1 (by decide)⟩

/-- A single line feed. -/
def lineFeed : Blank := ⟨['\n'], List.all_iff_forall_prop.1 (by decide)⟩

/-- A document with a value under another name, an escape in a key and in a value, and white
space. -/
def escapedDocument : String := " \x7b\"x\":[0],\n\"\\u0065vent\" : \"\\n\"\x7d"

/-- An object with one name twice, spelled in two ways. -/
def doubledDocument : String := "\x7b\"event\":0,\"x\":null,\"\\u0065vent\":0\x7d"

theorem named_members_count_escaped :
    Document (Item.Written (Event.default.set .event "\n")) [.other "x", .known .event]
        escapedDocument.toList ∧
      (Item.members [.other "x", .known .event]).Nodup ∧
      json.decode (Bytes.ofText escapedDocument) = .ok (Event.default.set .event "\n") ∧
      ∃ keys, Document AnyMember keys doubledDocument.toList ∧
        ["event".toList, "\\u0065vent".toList].Sublist keys ∧
        Spelled Member.event.name.toList "event".toList ∧
        Spelled Member.event.name.toList "\\u0065vent".toList ∧
        ∃ err, json.decode (Bytes.ofText doubledDocument) = .error err := by
  have hletter : CharSpelled 'e' "\\u0065".toList := by
    have hzero : HexDigit 0 '0' := .inl rfl
    have hsix : HexDigit 6 '6' := .inl rfl
    have hfive : HexDigit 5 '5' := .inl rfl
    exact .number (.digits hzero hzero hsix hfive)
  have hplain : Spelled Member.event.name.toList "event".toList :=
    .self (List.all_iff_forall_prop.1 (by decide))
  have hrest : Spelled "vent".toList "vent".toList :=
    .self (List.all_iff_forall_prop.1 (by decide))
  have hescaped : Spelled Member.event.name.toList "\\u0065vent".toList :=
    .cons hletter hrest
  have hx : Spelled "x".toList "x".toList :=
    .self (List.all_iff_forall_prop.1 (by decide))
  have hzero : Derives .value ['0'] := .number (.parts (.inl rfl) .zero .none .none)
  have hlist : Derives .value "[0]".toList := .list (.lastElement .empty .empty hzero)
  have hfeed : Spelled "\n".toList "\\n".toList := .cons (.letter (by decide)) .nil
  have hother : ∀ m : Member, m.name ≠ "x" := by
    have hall : ∀ m ∈ Member.all, m.name ≠ "x" := by decide +kernel
    exact fun m => hall m (Member.mem_all m)
  have hset : (Event.default.set .event "\n").value .event = "\n" := Event.set_self ..
  have hfirst : Item.Written (Event.default.set .event "\n") (.other "x") "\"x\":[0]".toList :=
    ⟨hother, .empty, _, _, hx, hlist, rfl⟩
  have hsecond : Item.Written (Event.default.set .event "\n") (.known .event)
      "\n\"\\u0065vent\" : \"\\n\"".toList := by
    refine ⟨⟨lineFeed, space, space, .empty⟩, _, "\"\\n\"".toList, hescaped, ?_, rfl⟩
    rw [hset]
    exact ⟨_, hfeed, rfl⟩
  have hitems : Document (Item.Written (Event.default.set .event "\n")) [.other "x", .known .event]
      escapedDocument.toList :=
    .object space .empty (.members (.cons hfirst (.last hsecond)))
  have honce : (Item.members [.other "x", .known .event]).Nodup := by decide
  have hdecoded := named_members_count.1 _ _ _ hitems honce
  have hevent : (⟨fun m => if .known m ∈ [Item.other "x", .known .event]
      then (Event.default.set .event "\n").value m else m.kind.default⟩ : Event) =
        Event.default.set .event "\n" := by decide +kernel
  have hkey : AnyMember "event".toList "\"event\":0".toList :=
    ⟨.empty, _, hplain.content, hzero, rfl⟩
  have hword : "null" ∈ ["null", "true", "false"] := by decide
  have hnull : AnyMember "x".toList "\"x\":null".toList :=
    ⟨.empty, _, hx.content, .word hword, rfl⟩
  have hkey' : AnyMember "\\u0065vent".toList "\"\\u0065vent\":0".toList :=
    ⟨.empty, _, hescaped.content, hzero, rfl⟩
  have hkeys : Document AnyMember ["event".toList, "x".toList, "\\u0065vent".toList]
      doubledDocument.toList :=
    .object .empty .empty (.members (.cons hkey (.cons hnull (.last hkey'))))
  rw [hevent] at hdecoded
  exact ⟨hitems, honce, hdecoded, _, hkeys, by decide, hplain, hescaped,
    named_members_count.2 _ _ _ _ _ hkeys (by decide) hplain hescaped⟩

end

end Decoder

end EventPipeline
