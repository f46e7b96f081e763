import EventPipeline.Proofs.Protobuf.RoundTrip
/-!
# The last record of a member counts

What a decoder of messages may be given is wider than what the encoder writes: records come
in any order and any number of times, varints may be longer than they have to be, a property
may give its name and its value in either order, more than once or not at all, and records
under numbers that no member has may stand anywhere. `Record` says what such a record holds
and `Record.Written` which bytes it is. Each reader takes one of them off (`Number.read`,
`Part.Written.read`, `Record.Written.read`), so a message stands for one edit for each
record, and of the edits of a member the last decides its value (`Record.value_foldl_apply`,
`Record.find?_foldl_apply`).
-/
namespace EventPipeline

namespace Protobuf

variable {number : Nat} {t : WireType} {bs content rest : Bytes}

/-! ## Numbers, keys and lengths -/

/-- The bytes are a varint that stands for `n`: seven bits in each, the lowest first. The last
ones may be zero, so a number has more than one varint. -/
inductive Varint : Nat → Bytes → Prop
  | last {b : UInt8} (h : b.toNat < 128) : Varint b.toNat [b]
  | more {b : UInt8} {n : Nat} {bs : Bytes} (h : 128 ≤ b.toNat) (hrest : Varint n bs) :
    Varint (b.toNat - 128 + 128 * n) (b :: bs)

/-- The bytes are a varint as it may stand in a message: ten bytes at most, and 64 bits. -/
structure Number (n : Nat) (bs : Bytes) : Prop where
  varint : Varint n bs
  length_le : bs.length ≤ 10
  lt_size : n < UInt64.size

/-- The largest number that a record may have: one of 29 bits. -/
def greatestNumber : Nat := UInt32.size / 8 - 1

/-- The bytes are the key of a record. -/
def Keyed (number : Nat) (t : WireType) (bs : Bytes) : Prop := Number (8 * number + t.code) bs

/-- The bytes are a length and as many bytes of content. -/
def Delimited (content bs : Bytes) : Prop :=
  ∃ length, Number content.length length ∧ bs = length ++ content

/-- The bytes are some value of the given wire type. -/
inductive Skipped : WireType → Bytes → Prop
  | varint {n : Nat} {bs : Bytes} (h : Number n bs) : Skipped .varint bs
  | sixtyFourBit {bs : Bytes} (h : bs.length = 8) : Skipped .sixtyFourBit bs
  | thirtyTwoBit {bs : Bytes} (h : bs.length = 4) : Skipped .thirtyTwoBit bs
  | lengthDelimited {content bs : Bytes} (h : Delimited content bs) : Skipped .lengthDelimited bs

/-- The bytes are these things one behind the other. -/
inductive Joined {α : Type} (Written : α → Bytes → Prop) : List α → Bytes → Prop
  | nil : Joined Written [] []
  | cons {x : α} {xs : List α} {bs more : Bytes} (h : Written x bs)
      (hmore : Joined Written xs more) : Joined Written (x :: xs) (bs ++ more)

/-- A varint of which `i` bytes are read is read to its end. -/
theorem Varint.readFrom {n i : Nat} (h : Varint n bs) (hlength : i + bs.length ≤ 10)
    (hn : Nat.pow 128 i * n < UInt64.size) (rest : Bytes) :
    readVarintFrom i (bs ++ rest) = .ok (n, rest) := by
  have hten : Nat.pow 128 9 = 9223372036854775808 := rfl
  induction h generalizing i with
  | @last b hlt =>
    have hroom : ¬(i = 9 ∧ 2 ≤ b.toNat) := by
      rintro ⟨rfl, htwo⟩
      rw [hten, UInt64.size] at hn
      omega
    rw [List.singleton_append, readVarintFrom, if_pos hlt, if_neg hroom]
  | @more b n bs hge hrest ih =>
    have hbs : 0 < bs.length := by cases hrest <;> simp
    rw [List.length_cons] at hlength
    have hnext : Nat.pow 128 (i + 1) * n < UInt64.size := by
      have hpow : Nat.pow 128 (i + 1) = Nat.pow 128 i * 128 := rfl
      rw [hpow, Nat.mul_assoc]
      exact Nat.lt_of_le_of_lt (Nat.mul_le_mul_left _ (by omega)) hn
    rw [List.cons_append, readVarintFrom, if_neg (by omega), if_neg (by omega),
      ih (by omega) hnext]

theorem Number.read {n : Nat} (h : Number n bs) (rest : Bytes) :
    readVarint (bs ++ rest) = .ok (n, rest) :=
  h.varint.readFrom (by simpa using h.length_le)
    (by simpa [show Nat.pow 128 0 = 1 from rfl] using h.lt_size) rest

theorem Keyed.read (h : Keyed number t bs) (hpos : number ≠ 0) (hle : number ≤ greatestNumber)
    (rest : Bytes) : readKey (bs ++ rest) = .ok (⟨number, t⟩, rest) := by
  have hcode : t.code < 8 := by cases t <;> decide
  have hsmall : ¬UInt32.size ≤ 8 * number + t.code := by
    rw [greatestNumber, UInt32.size] at hle
    rw [UInt32.size]
    omega
  have hdiv : (8 * number + t.code) / 8 = number := by omega
  have hmod : (8 * number + t.code) % 8 = t.code := by omega
  rw [readKey, Number.read h]
  simp only [if_neg hsmall, hmod, hdiv, WireType.ofCode?_code, if_neg hpos]

theorem Delimited.read (h : Delimited content bs) (rest : Bytes) :
    readDelimited (bs ++ rest) = .ok (content, rest) := by
  obtain ⟨length, hlength, rfl⟩ := h
  rw [readDelimited, List.append_assoc, hlength.read]
  simp

theorem Delimited.readText {s : String} (h : Delimited (Bytes.ofText s) bs) (rest : Bytes) :
    readText .lengthDelimited (bs ++ rest) = .ok (s, rest) := by
  simp only [Protobuf.readText, expectWireType, if_true, h.read, Bytes.toText?_ofText]

theorem Skipped.skip (h : Skipped t bs) (depth number : Nat) (rest : Bytes) :
    skipRecord depth ⟨number, t⟩ (bs ++ rest) = .ok rest := by
  have hadvance : ∀ n, bs.length = n → advance n (bs ++ rest) = .ok rest := by
    rintro n rfl
    simp [advance]
  cases h with
  | varint h => simp [skipRecord, skipValue, h.read, Except.map]
  | sixtyFourBit h => exact hadvance 8 h
  | thirtyTwoBit h => exact hadvance 4 h
  | lengthDelimited h => simp [skipRecord, skipValue, h.read, Except.map]

/-! ## Properties -/

/-- A part of a property: its name, its value, or a record of no interest. -/
inductive Part
  | name (s : String)
  | value (s : String)
  | unknown (number : Nat)

namespace Part

/-- The bytes are this part. -/
inductive Written : Part → Bytes → Prop
  | name {s : String} {key value : Bytes} (hkey : Keyed 1 .lengthDelimited key)
    (hvalue : Delimited (Bytes.ofText s) value) : Written (.name s) (key ++ value)
  | value {s : String} {key value : Bytes} (hkey : Keyed 2 .lengthDelimited key)
    (hvalue : Delimited (Bytes.ofText s) value) : Written (.value s) (key ++ value)
  | unknown {number : Nat} {t : WireType} {key value : Bytes} (hlow : 3 ≤ number)
    (hhigh : number ≤ greatestNumber) (hkey : Keyed number t key) (hvalue : Skipped t value) :
    Written (.unknown number) (key ++ value)

/-- The name that a part gives. -/
def name? : Part → Option String
  | .name s => some s
  | _ => none

/-- The value that a part gives. -/
def value? : Part → Option String
  | .value s => some s
  | _ => none

/-- The name and the value of a property: of several the last, and none is the empty one. -/
def entry (parts : List Part) : String × String :=
  ((parts.filterMap name?).getLast?.getD "", (parts.filterMap value?).getLast?.getD "")

/-- Under other numbers than 1 and 2, a property may hold anything. -/
theorem readPropertyFields_skip {limit : Nat} {name value : String} {more : Bytes}
    (hkey : readKey bs = .ok (⟨number, t⟩, more)) (hlow : 3 ≤ number)
    (hskip : skipRecord (nestingLimit - 1) ⟨number, t⟩ more = .ok rest)
    (hlimit : limit ≤ rest.length) :
    readPropertyFields limit name value bs = readPropertyFields limit name value rest := by
  have hlong : ¬bs.length ≤ limit := by
    have hkeyShorter := readKey_length hkey
    have hskipShorter := skipRecord_length hskip
    omega
  rw [readPropertyFields, if_neg hlong]
  split
  next hk => rw [hkey] at hk; cases hk
  next hk =>
    rw [hkey] at hk
    cases hk
    rw [if_neg (by simp; omega), if_neg (by simp; omega)]
    split
    next hs => rw [hskip] at hs; cases hs
    next hs => rw [hskip] at hs; cases hs; rfl

/-- A part replaces the name or the value that was read before it. -/
theorem Written.read {p : Part} (h : p.Written bs) {limit : Nat} {name value : String}
    (hlimit : limit ≤ rest.length) :
    readPropertyFields limit name value (bs ++ rest) =
      readPropertyFields limit (p.name?.getD name) (p.value?.getD value) rest := by
  cases h with
  | name hkey htext =>
    rw [List.append_assoc, readPropertyFields_text (hkey.read (by decide) (by decide) _)
      (htext.readText rest) (.inl rfl) hlimit]
    rfl
  | value hkey htext =>
    rw [List.append_assoc, readPropertyFields_text (hkey.read (by decide) (by decide) _)
      (htext.readText rest) (.inr rfl) hlimit]
    rfl
  | unknown hlow hhigh hkey hskipped =>
    rw [List.append_assoc, readPropertyFields_skip (hkey.read (by omega) hhigh _) hlow
      (hskipped.skip _ _ rest) hlimit]
    rfl

/-- A property is read as its last name and its last value. -/
theorem read_parts {parts : List Part} (h : Joined Written parts content) (name value : String)
    (rest : Bytes) : readPropertyFields rest.length name value (content ++ rest) =
      .ok (((parts.filterMap name?).getLast?.getD name,
        (parts.filterMap value?).getLast?.getD value), rest) := by
  induction h generalizing name value with
  | nil => exact readPropertyFields_end name value rest
  | @cons p parts bs more hp hmore ih =>
    rw [List.append_assoc, hp.read (by simp), ih]
    cases p <;> simp [name?, value?, List.getLast?_cons]

end Part

theorem readProperty_parts {parts : List Part} (h : Joined Part.Written parts content)
    (hbs : Delimited content bs) (rest : Bytes) :
    readProperty (bs ++ rest) = .ok (Part.entry parts, rest) := by
  obtain ⟨length, hlength, rfl⟩ := hbs
  rw [readProperty, List.append_assoc, hlength.read]
  simp [Part.read_parts h, Part.entry]

/-! ## Records -/

/-- What a record holds: a text or a number for a member, a property, or something under a number
that is no member's. -/
inductive Record
  | text (m : Member) (s : String)
  | number (m : Member) (n : Nat)
  | property (parts : List Part)
  | unknown (number : Nat)

/-- A text as a value of the given kind. -/
def ofText? : (k : Kind) → String → Option k.Value
  | .text, s => some s
  | _, _ => none

/-- A number of 64 bits as a value of the given kind: signed, and for 32 bits the low ones. -/
def ofNumber? : (k : Kind) → Nat → Option k.Value
  | .int32, n => some (UInt32.ofNat n).toInt32
  | .int64, n => some (UInt64.ofNat n).toInt64
  | _, _ => none

theorem ofText?_eq {k : Kind} (hk : k = .text) (s : String) : ofText? k s = some (hk ▸ s) := by
  subst hk
  rfl

theorem ofNumber?_eq32 {k : Kind} (hk : k = .int32) (n : Nat) :
    ofNumber? k n = some (hk ▸ Int32.ofInt n) := by
  subst hk
  exact congrArg some Int32.ofInt_eq_ofNat.symm

theorem ofNumber?_eq64 {k : Kind} (hk : k = .int64) (n : Nat) :
    ofNumber? k n = some (hk ▸ Int64.ofInt n) := by
  subst hk
  exact congrArg some Int64.ofInt_eq_ofNat.symm

theorem tag_le_greatest (m : Member) : m.tag ≤ greatestNumber := by cases m <;> decide

namespace Record

/-- The bytes are this record. -/
inductive Written : Record → Bytes → Prop
  | text {m : Member} {s : String} {key value : Bytes} (hm : m.kind = .text)
    (hkey : Keyed m.tag .lengthDelimited key) (hvalue : Delimited (Bytes.ofText s) value) :
    Written (.text m s) (key ++ value)
  | number {m : Member} {n : Nat} {key value : Bytes} (hm : m.kind = .int32 ∨ m.kind = .int64)
    (hkey : Keyed m.tag .varint key) (hvalue : Number n value) :
    Written (.number m n) (key ++ value)
  | property {parts : List Part} {content key value : Bytes}
    (hkey : Keyed Member.extendInfo.tag .lengthDelimited key)
    (hparts : Joined Part.Written parts content) (hvalue : Delimited content value) :
    Written (.property parts) (key ++ value)
  | unknown {number : Nat} {t : WireType} {key value : Bytes} (hlow : 51 ≤ number)
    (hhigh : number ≤ greatestNumber) (hkey : Keyed number t key) (hvalue : Skipped t value) :
    Written (.unknown number) (key ++ value)

/-- Whether the record is a member's. -/
def known : Record → Bool
  | .unknown _ => false
  | _ => true

/-- The value that a record gives a member. -/
def given? (m : Member) : Record → Option m.kind.Value
  | .text n s => if n = m then ofText? m.kind s else none
  | .number n i => if n = m then ofNumber? m.kind i else none
  | _ => none

/-- The value that a record gives the property with the given name. -/
def property? (name : String) : Record → Option String
  | .property parts => if (Part.entry parts).1 = name then some (Part.entry parts).2 else none
  | _ => none

/-- What a record is read as. -/
def edit? : Record → Option Edit
  | .text m s => (ofText? m.kind s).map (.assign m)
  | .number m n => (ofNumber? m.kind n).map (.assign m)
  | .property parts => some (.putProperty (Part.entry parts).1 (Part.entry parts).2)
  | .unknown _ => none

/-- A record is read as the edit that it stands for. -/
theorem Written.read {r : Record} (h : r.Written bs) (rest : Bytes) :
    readRecord (bs ++ rest) = .ok (r.edit?, rest) := by
  cases h with
  | @text m s key value hm hkey htext =>
    rw [List.append_assoc, readRecord, hkey.read (Nat.succ_ne_zero _) (tag_le_greatest m)]
    simp only [Member.ofTag?_tag, readMember_of_text _ _ hm, htext.readText, Except.map, edit?,
      ofText?_eq hm, Option.map_some]
  | @number m n key value hm hkey hnumber =>
    have hread : readNumber .varint (value ++ rest) = .ok (n, rest) := by
      simp only [readNumber, expectWireType, if_true, hnumber.read]
    rw [List.append_assoc, readRecord, hkey.read (Nat.succ_ne_zero _) (tag_le_greatest m)]
    rcases hm with hm | hm
    · simp only [Member.ofTag?_tag, readMember_of_int32 _ _ hm, hread, Except.map, edit?,
        ofNumber?_eq32 hm, Option.map_some]
    · simp only [Member.ofTag?_tag, readMember_of_int64 _ _ hm, hread, Except.map, edit?,
        ofNumber?_eq64 hm, Option.map_some]
  | property hkey hparts hvalue =>
    rw [List.append_assoc, readRecord, hkey.read (Nat.succ_ne_zero _) (tag_le_greatest _)]
    simp only [Member.ofTag?_tag, readMember_of_properties (m := .extendInfo) _ _ rfl,
      readProperty_parts hparts hvalue, Except.map, edit?]
  | @unknown number t key value hlow hhigh hkey hskipped =>
    have hnone : Member.ofTag? number = none := by
      obtain ⟨n, rfl⟩ : ∃ n, number = n + 1 := ⟨number - 1, by omega⟩
      exact List.getElem?_eq_none (show 50 ≤ n by omega)
    rw [List.append_assoc, readRecord, hkey.read (by omega) hhigh]
    simp only [hnone, hskipped.skip, edit?]

end Record

/-- Records one behind the other stand for an edit each. -/
theorem records_of_joined {records : List Record} (h : Joined Record.Written records bs) :
    Records bs (records.filterMap Record.edit?) := by
  induction h with
  | nil => exact .nil
  | @cons r rs bs more hr hmore ih =>
    have hedits : (r :: rs).filterMap Record.edit? =
        r.edit?.toList ++ rs.filterMap Record.edit? := by
      cases hedit : r.edit? <;> simp [hedit]
    rw [hedits]
    exact (Records.of_read hr.read).append ih

/-! ## What the records make of an event -/

/-- The event has for each member, and for each property, the last value that the records give it; a
member that they do not give has its default, and a property that they do not give is missing. -/
structure LastGiven (records : List Record) (e : Event) : Prop where
  member (m : Member) (hm : m ≠ .extendInfo) :
    e.value m = (records.filterMap (·.given? m)).getLast?.getD m.kind.default
  property (name : String) :
    e.properties.find? name = (records.filterMap (·.property? name)).getLast?

/-- The event is `x` with the members of `y` that differ from their default, and the properties of
`y`, put over it. -/
structure Overlaid (x y e : Event) : Prop where
  member (m : Member) (hm : m ≠ .extendInfo) :
    e.value m = if y.value m = m.kind.default then x.value m else y.value m
  property (name : String) :
    e.properties.find? name = (y.properties.find? name).or (x.properties.find? name)

namespace Record

/-- The event after what a record stands for. -/
def apply (d : Event) (r : Record) : Event := r.edit?.elim d d.edit

theorem foldl_edits_eq (records : List Record) (d : Event) :
    (records.filterMap edit?).foldl Event.edit d = records.foldl apply d := by
  induction records generalizing d with
  | nil => rfl
  | cons r rs ih =>
    rw [List.foldl_cons, ← ih, apply]
    cases hedit : r.edit? <;> simp [hedit]

/-- A value for the member `n`, by its kind, is one for `m` if they are the same. -/
theorem value_assign (d : Event) (n m : Member) (f : (k : Kind) → Option k.Value) :
    (((f n.kind).map (Edit.assign n)).elim d d.edit).value m =
      (if n = m then f m.kind else none).getD (d.value m) := by
  by_cases hn : n = m
  · subst hn
    rw [if_pos rfl]
    cases hv : f n.kind with
    | none => rfl
    | some v => exact Event.set_self d n v
  · rw [if_neg hn]
    cases hv : f n.kind with
    | none => rfl
    | some v => exact Event.set_ne d v (Ne.symm hn)

theorem value_apply (d : Event) (r : Record) {m : Member} (hm : m ≠ .extendInfo) :
    (apply d r).value m = (r.given? m).getD (d.value m) := by
  cases r with
  | text n s => exact value_assign d n m (ofText? · s)
  | number n i => exact value_assign d n m (ofNumber? · i)
  | property parts => exact Event.set_ne d _ hm
  | unknown number => rfl

/-- A value for a member leaves the properties alone, for there is none for theirs. -/
theorem properties_assign (d : Event) {n : Member} {v? : Option n.kind.Value}
    (hv : n = .extendInfo → v? = none) :
    ((v?.map (Edit.assign n)).elim d d.edit).properties = d.properties := by
  cases v? with
  | none => rfl
  | some v =>
    have hn : n ≠ .extendInfo := fun h => Option.some_ne_none v (hv h)
    exact Event.set_ne d v hn.symm

theorem find?_apply (d : Event) (r : Record) (name : String) :
    (apply d r).properties.find? name = (r.property? name).or (d.properties.find? name) := by
  cases r with
  | text n s =>
    have hkept : (apply d (.text n s)).properties = d.properties :=
      properties_assign d (by rintro rfl; rfl)
    rw [hkept]
    rfl
  | number n i =>
    have hkept : (apply d (.number n i)).properties = d.properties :=
      properties_assign d (by rintro rfl; rfl)
    rw [hkept]
    rfl
  | property parts =>
    have hinsert : (apply d (.property parts)).properties =
        d.properties.insert (Part.entry parts).1 (Part.entry parts).2 := Event.set_self d _ _
    rw [hinsert, Dict.find?_insert, property?]
    by_cases hname : name = (Part.entry parts).1
    · rw [if_pos hname, if_pos hname.symm]
      rfl
    · rw [if_neg hname, if_neg (Ne.symm hname)]
      rfl
  | unknown number => rfl

/-- Of the values that records give a member the last one stays. -/
theorem value_foldl_apply (records : List Record) (d : Event) {m : Member}
    (hm : m ≠ .extendInfo) : (records.foldl apply d).value m =
      (records.filterMap (·.given? m)).getLast?.getD (d.value m) := by
  induction records generalizing d with
  | nil => rfl
  | cons r rs ih =>
    rw [List.foldl_cons, ih, value_apply d r hm]
    cases hgiven : r.given? m <;> simp [hgiven, List.getLast?_cons]

theorem find?_foldl_apply (records : List Record) (d : Event) (name : String) :
    (records.foldl apply d).properties.find? name =
      (records.filterMap (·.property? name)).getLast?.or (d.properties.find? name) := by
  induction records generalizing d with
  | nil => rfl
  | cons r rs ih =>
    rw [List.foldl_cons, ih, find?_apply]
    cases hgiven : r.property? name <;> simp [hgiven, List.getLast?_cons]

end Record

/-- A message of such records is read as the event with their last values. -/
theorem decode_joined {records : List Record} (h : Joined Record.Written records bs) :
    ∃ e, decode bs = .ok e ∧ LastGiven records e := by
  refine ⟨records.foldl Record.apply .default, ?_, fun m hm => ?_, fun name => ?_⟩
  · rw [decode, (records_of_joined h).readEdits, Except.map, Event.ofEdits, Record.foldl_edits_eq]
  · exact Record.value_foldl_apply records .default hm
  · exact (Record.find?_foldl_apply records .default name).trans Option.or_none

/-- There is one event with the last values. -/
theorem LastGiven.unique {records : List Record} {d e : Event} (hd : LastGiven records d)
    (he : LastGiven records e) : d = e := by
  ext m
  by_cases hm : m = .extendInfo
  · subst hm
    exact Dict.ext_find? fun name => (hd.property name).trans (he.property name).symm
  · rw [hd.member m hm, he.member m hm]

/-- Records that are no member's do not count. -/
theorem LastGiven.filter {records : List Record} {e : Event} (h : LastGiven records e) :
    LastGiven (records.filter Record.known) e := by
  have hsame : ∀ {α : Type} (f : Record → Option α), (∀ number, f (.unknown number) = none) →
      (records.filter Record.known).filterMap f = records.filterMap f := by
    intro α f hf
    rw [List.filterMap_filter]
    refine congrArg (records.filterMap ·) (funext fun r => ?_)
    cases r <;> simp [Record.known, hf]
  constructor
  · intro m hm
    rw [hsame (·.given? m) fun _ => rfl]
    exact h.member m hm
  · intro name
    rw [hsame (·.property? name) fun _ => rfl]
    exact h.property name

/-- Two messages one behind the other are read as the second event put over the first. -/
theorem decode_encode_append {x y : Event} (hx : (encode x).length < UInt64.size)
    (hy : (encode y).length < UInt64.size) :
    ∃ e, decode (encode x ++ encode y) = .ok e ∧ Overlaid x y e := by
  have hread := ((records_encode hx).append (records_encode hy)).readEdits
  refine ⟨(Member.all.flatMap (editsOf y)).foldl Event.edit x, ?_, fun m hm => ?_, fun name => ?_⟩
  · have hfirst : (Member.all.flatMap (editsOf x)).foldl Event.edit .default = x :=
      ofEdits_editsOf x
    rw [decode, hread, Except.map, Event.ofEdits, List.foldl_append, hfirst]
  · rw [value_foldl_edits y x _ hm]
    by_cases hv : y.value m = m.kind.default <;> simp [hv]
  · exact find?_foldl_edits y x name

end Protobuf

namespace Decoder

open Protobuf

/-- The decoder of messages reads every message that is made of records of members, with values of
their kind, and of records that are no member's. Of the values for a member, or for a property,
the last counts, and it is as if the records that are no member's were not there. So a message
behind another puts its event over that of the other. -/
theorem last_record_counts :
    (∀ (records : List Record) (payload : Bytes), payload ≠ [] →
      Joined Record.Written records payload →
      ∃ e, protobuf.decode payload = .ok e ∧ LastGiven records e ∧
        LastGiven (records.filter Record.known) e ∧
        ∀ fewer, fewer ≠ [] → Joined Record.Written (records.filter Record.known) fewer →
          protobuf.decode fewer = .ok e) ∧
    ∀ x y : Event, (Protobuf.encode x).length < UInt64.size →
      (Protobuf.encode y).length < UInt64.size → x ≠ .default ∨ y ≠ .default →
      ∃ e, protobuf.decode (Protobuf.encode x ++ Protobuf.encode y) = .ok e ∧ Overlaid x y e := by
  have hdecode : ∀ {payload : Bytes} {e : Event}, payload ≠ [] →
      Protobuf.decode payload = .ok e → protobuf.decode payload = .ok e := by
    intro payload e hne h
    rw [Decoder.decode, if_neg hne, h]
    rfl
  constructor
  · intro records payload hne h
    obtain ⟨e, he, hlast⟩ := decode_joined h
    refine ⟨e, hdecode hne he, hlast, hlast.filter, fun fewer hfewer hknown => ?_⟩
    obtain ⟨d, hd, hdlast⟩ := decode_joined hknown
    rw [hdecode hfewer hd, hdlast.unique hlast.filter]
  · intro x y hx hy hdefault
    obtain ⟨e, he, hover⟩ := decode_encode_append hx hy
    refine ⟨e, hdecode ?_ he, hover⟩
    intro hnil
    obtain ⟨hxnil, hynil⟩ := List.append_eq_nil_iff.1 hnil
    rcases hdefault with h | h
    · exact h (encode_eq_nil_iff.1 hxnil)
    · exact h (encode_eq_nil_iff.1 hynil)

/-- A record of each kind, the value of a property before its name, and two values for a member. -/
def mixedRecords : List Record :=
  [.text .eventId "a", .number .screenWidth 4294967301, .unknown 51,
    .property [.value "v", .unknown 3, .name "k"], .text .eventId "é"]

/-- The bytes of `mixedRecords`, with keys and lengths that are longer than they have to be. -/
def mixedMessage : Bytes :=
  [10, 1, 97] ++ ([128, 1, 133, 128, 128, 128, 16] ++ ([157, 3, 1, 2, 3, 4] ++
    ([146, 3, 10, 18, 1, 118, 24, 255, 1, 10, 129, 0, 107] ++ ([138, 0, 2, 195, 169] ++ []))))

theorem mixedMessage_joined : Joined Record.Written mixedRecords mixedMessage := by
  have hone : ∀ b : UInt8, b.toNat < 128 → Number b.toNat [b] := fun b hb =>
    ⟨.last hb, Nat.le_of_ble_eq_true rfl, Nat.lt_trans hb (by decide)⟩
  have hlong : ∀ a b : UInt8, 128 ≤ a.toNat → b.toNat < 128 →
      Number (a.toNat - 128 + 128 * b.toNat) [a, b] := fun a b ha hb =>
    ⟨.more ha (.last hb), Nat.le_of_ble_eq_true rfl,
      by have := a.toNat_lt; rw [UInt64.size]; omega⟩
  have hwidth : Number 4294967301 [133, 128, 128, 128, 16] :=
    ⟨.more (b := 133) (n := 33554432) (by decide) (.more (b := 128) (n := 262144) (by decide)
      (.more (b := 128) (n := 2048) (by decide) (.more (b := 128) (n := 16) (by decide)
        (.last (b := 16) (by decide))))), by decide, by decide⟩
  have htext : ∀ (s : String) (b : UInt8), (Bytes.ofText s).length = b.toNat → b.toNat < 128 →
      Delimited (Bytes.ofText s) (b :: Bytes.ofText s) := fun s b hs hb =>
    ⟨[b], hs ▸ hone b hb, rfl⟩
  have hvalue : Part.Written (.value "v") ([18] ++ [1, 118]) :=
    .value (hone 18 (by decide)) (htext "v" 1 (by decide) (by decide))
  have hother : Part.Written (.unknown 3) ([24] ++ [255, 1]) :=
    .unknown (t := .varint) (by decide) (by decide) (hone 24 (by decide))
      (.varint (hlong 255 1 (by decide) (by decide)))
  have hname : Part.Written (.name "k") ([10] ++ [129, 0, 107]) :=
    .name (hone 10 (by decide)) ⟨[129, 0], hlong 129 0 (by decide) (by decide), by decide⟩
  have hfirst : Record.Written (.text .eventId "a") ([10] ++ [1, 97]) :=
    .text rfl (hone 10 (by decide)) (htext "a" 1 (by decide) (by decide))
  have hnumber : Record.Written (.number .screenWidth 4294967301)
      ([128, 1] ++ [133, 128, 128, 128, 16]) :=
    .number (.inl rfl) (hlong 128 1 (by decide) (by decide)) hwidth
  have hunknown : Record.Written (.unknown 51) ([157, 3] ++ [1, 2, 3, 4]) :=
    .unknown (t := .thirtyTwoBit) (by decide) (by decide) (hlong 157 3 (by decide) (by decide))
      (.thirtyTwoBit rfl)
  have hproperty : Record.Written (.property [.value "v", .unknown 3, .name "k"])
      ([146, 3] ++ [10, 18, 1, 118, 24, 255, 1, 10, 129, 0, 107]) :=
    .property (hlong 146 3 (by decide) (by decide)) (.cons hvalue (.cons hother (.cons hname .nil)))
      ⟨[10], hone 10 (by decide), rfl⟩
  have hlast : Record.Written (.text .eventId "é") ([138, 0] ++ [2, 195, 169]) :=
    .text rfl (hlong 138 0 (by decide) (by decide)) (htext "é" 2 (by decide) (by decide))
  exact .cons hfirst (.cons hnumber (.cons hunknown (.cons hproperty (.cons hlast .nil))))

theorem last_record_counts_mixed :
    mixedMessage ≠ [] ∧ Joined Record.Written mixedRecords mixedMessage ∧
      (∃ e, protobuf.decode mixedMessage = .ok e ∧ LastGiven mixedRecords e) ∧
      (Protobuf.encode extremeEvent).length < UInt64.size ∧
      (Protobuf.encode .default).length < UInt64.size ∧
      extremeEvent ≠ .default ∧
      ∃ e, protobuf.decode (Protobuf.encode extremeEvent ++ Protobuf.encode .default) = .ok e ∧
        Overlaid extremeEvent .default e := by
  have hne : mixedMessage ≠ [] := List.cons_ne_nil _ _
  have hx : (Protobuf.encode extremeEvent).length < UInt64.size := by decide +kernel
  have hy : (Protobuf.encode .default).length < UInt64.size := by decide +kernel
  have hdefault : extremeEvent ≠ .default := by decide +kernel
  obtain ⟨e, he, hlast, -⟩ := last_record_counts.1 _ _ hne mixedMessage_joined
  exact ⟨hne, mixedMessage_joined, ⟨e, he, hlast⟩, hx, hy, hdefault,
    last_record_counts.2 _ _ hx hy (.inl hdefault)⟩

end Decoder

end EventPipeline
