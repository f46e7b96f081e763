import EventPipeline.Event.Basic
import EventPipeline.Protobuf.Wire
/-!
# Events as protobuf messages

Written, an event is a record for each member that differs from its default, in
the order of the members' numbers; the properties are one record for each entry.
Read, records come in any order and any number of times: each one that carries a
member's number is one edit of the event, all others are skipped. See the
specification, 4.7.
-/
namespace EventPipeline.Protobuf

/-- Why a message is refused: what is wrong with it, and in which member. -/
structure Malformed where
  member : Option Member
  cause : WireError
deriving DecidableEq

/-- The wording of a refusal. -/
def Malformed.message (m : Malformed) : String :=
  let place := match m.member with
    | none => ""
    | some member => "EventLog." ++ member.name ++ ": "
  "failed to decode Protobuf message: " ++ place ++ m.cause.message

/-- How many groups may be open around a record. -/
def nestingLimit : Nat := 100

/-! ## Writing -/

/-- A record with a text. -/
def writeText (number : Nat) (s : String) : Bytes :=
  writeKey ⟨number, .lengthDelimited⟩ ++ writeDelimited (Bytes.ofText s)

/-- A record with a whole number: negative ones are written as their 64 bit complement. -/
def writeInteger (number : Nat) (i : Int) : Bytes :=
  writeKey ⟨number, .varint⟩ ++ writeVarint (i % UInt64.size).toNat

/-- A record with one property; an empty name and an empty value are left out of it. -/
def writeProperty (number : Nat) (entry : String × String) : Bytes :=
  let name := if entry.1 = "" then [] else writeText 1 entry.1
  let value := if entry.2 = "" then [] else writeText 2 entry.2
  writeKey ⟨number, .lengthDelimited⟩ ++ writeDelimited (name ++ value)

/-- The records of a member with the given number, kind and value. -/
def writeMember (number : Nat) : (k : Kind) → k.Value → Bytes
  | .text, s => if s = "" then [] else writeText number s
  | .int32, i => if i = 0 then [] else writeInteger number i.toInt
  | .int64, i => if i = 0 then [] else writeInteger number i.toInt
  | .properties, d => d.entries.flatMap (writeProperty number)

/-- The message that holds an event. -/
def encode (e : Event) : Bytes :=
  Member.all.flatMap (fun m => writeMember m.tag m.kind (e.value m))

/-! ## Reading -/

/-- Fail unless a record has the wire type that its member asks for. -/
def expectWireType (expected found : WireType) : Except WireError Unit :=
  if found = expected then .ok () else .error (.wrongWireType found expected)

/-- Read the value of a record as a text. -/
def readText (t : WireType) (bs : Bytes) : Except WireError (String × Bytes) :=
  match expectWireType .lengthDelimited t with
  | .error e => .error e
  | .ok () =>
    match readDelimited bs with
    | .error e => .error e
    | .ok (content, rest) =>
      match Bytes.toText? content with
      | none => .error .notUtf8
      | some s => .ok (s, rest)

/-- Read the value of a record as a varint. -/
def readNumber (t : WireType) (bs : Bytes) : Except WireError (Nat × Bytes) :=
  match expectWireType .varint t with
  | .error e => .error e
  | .ok () => readVarint bs

theorem readText_length {t : WireType} {s : String} {bs rest : Bytes}
    (h : readText t bs = .ok (s, rest)) : rest.length < bs.length := by
  unfold readText at h
  split at h
  · simp at h
  · split at h
    · simp at h
    · next hd =>
      have := readDelimited_length hd
      split at h
      · simp at h
      · simp only [Except.ok.injEq, Prod.mk.injEq] at h
        rwa [← h.2]

theorem readNumber_length {t : WireType} {n : Nat} {bs rest : Bytes}
    (h : readNumber t bs = .ok (n, rest)) : rest.length < bs.length := by
  unfold readNumber at h
  split at h
  · simp at h
  · exact readVarint_length h

/-- Read the records of a property until no more than `limit` bytes are left. -/
def readPropertyFields (limit : Nat) (name value : String) (bs : Bytes) :
    Except WireError ((String × String) × Bytes) :=
  if bs.length ≤ limit then
    if bs.length = limit then .ok ((name, value), bs) else .error .delimitedLengthExceeded
  else
    match hk : readKey bs with
    | .error e => .error e
    | .ok (key, rest) =>
      have := readKey_length hk
      if key.number = 1 then
        match ht : readText key.wireType rest with
        | .error e => .error e
        | .ok (name, rest') =>
          have := readText_length ht
          readPropertyFields limit name value rest'
      else if key.number = 2 then
        match ht : readText key.wireType rest with
        | .error e => .error e
        | .ok (value, rest') =>
          have := readText_length ht
          readPropertyFields limit name value rest'
      else
        match hs : skipRecord (nestingLimit - 1) key rest with
        | .error e => .error e
        | .ok rest' =>
          have := skipRecord_length hs
          readPropertyFields limit name value rest'
termination_by bs.length

/-- Read a property: a length, and as many bytes of records for its name and value. -/
def readProperty (bs : Bytes) : Except WireError ((String × String) × Bytes) :=
  match readVarint bs with
  | .error e => .error e
  | .ok (n, rest) =>
    if rest.length < n then .error .underflow
    else readPropertyFields (rest.length - n) "" "" rest

/-- Read the value of a record that belongs to member `m` as an edit. -/
def readMember (m : Member) (t : WireType) (bs : Bytes) : Except WireError (Edit × Bytes) :=
  match h : m.kind with
  | .text => (readText t bs).map (fun (s, rest) => (.assign m (h ▸ s), rest))
  | .int32 =>
    (readNumber t bs).map (fun (n, rest) => (.assign m (h ▸ Int32.ofInt n), rest))
  | .int64 =>
    (readNumber t bs).map (fun (n, rest) => (.assign m (h ▸ Int64.ofInt n), rest))
  | .properties =>
    (readProperty bs).map (fun ((name, value), rest) => (.putProperty name value, rest))

/-- Read one record: the edit it stands for, or none if it belongs to no member. -/
def readRecord (bs : Bytes) : Except Malformed (Option Edit × Bytes) :=
  match readKey bs with
  | .error e => .error ⟨none, e⟩
  | .ok (key, rest) =>
    match Member.ofTag? key.number with
    | none =>
      match skipRecord nestingLimit key rest with
      | .error e => .error ⟨none, e⟩
      | .ok rest => .ok (none, rest)
    | some m =>
      match readMember m key.wireType rest with
      | .error e => .error ⟨some m, e⟩
      | .ok (edit, rest) => .ok (some edit, rest)

theorem readPropertyFields_length {limit : Nat} {name value : String} {p : String × String}
    {bs rest : Bytes} (h : readPropertyFields limit name value bs = .ok (p, rest)) :
    rest.length ≤ bs.length := by
  fun_induction readPropertyFields limit name value bs with
  | case1 => simp only [Except.ok.injEq, Prod.mk.injEq] at h; simp [← h.2]
  | case2 | case3 | case4 | case6 | case8 => simp at h
  | case5 => rename_i ih; have := ih h; omega
  | case7 => rename_i ih; have := ih h; omega
  | case9 => rename_i ih; have := ih h; omega

theorem readProperty_length {p : String × String} {bs rest : Bytes}
    (h : readProperty bs = .ok (p, rest)) : rest.length < bs.length := by
  unfold readProperty at h
  split at h
  · simp at h
  · next hv =>
    have := readVarint_length hv
    split at h
    · simp at h
    · have := readPropertyFields_length h
      omega

theorem map_eq_ok {α β : Type} {x : Except WireError α} {f : α → β} {b : β}
    (h : x.map f = .ok b) : ∃ a, x = .ok a ∧ f a = b := by
  cases x with
  | error e => simp [Except.map] at h
  | ok a => exact ⟨a, rfl, by simpa [Except.map] using h⟩

theorem readMember_length {m : Member} {t : WireType} {edit : Edit} {bs rest : Bytes}
    (h : readMember m t bs = .ok (edit, rest)) : rest.length < bs.length := by
  unfold readMember at h
  split at h
  · obtain ⟨⟨s, r⟩, hr, he⟩ := map_eq_ok h
    simp only [Prod.mk.injEq] at he
    rw [← he.2]; exact readText_length hr
  · obtain ⟨⟨s, r⟩, hr, he⟩ := map_eq_ok h
    simp only [Prod.mk.injEq] at he
    rw [← he.2]; exact readNumber_length hr
  · obtain ⟨⟨s, r⟩, hr, he⟩ := map_eq_ok h
    simp only [Prod.mk.injEq] at he
    rw [← he.2]; exact readNumber_length hr
  · obtain ⟨⟨s, r⟩, hr, he⟩ := map_eq_ok h
    simp only [Prod.mk.injEq] at he
    rw [← he.2]; exact readProperty_length hr

theorem readRecord_length {edit : Option Edit} {bs rest : Bytes}
    (h : readRecord bs = .ok (edit, rest)) : rest.length < bs.length := by
  unfold readRecord at h
  split at h
  · simp at h
  · next hk =>
    have := readKey_length hk
    split at h
    · split at h
      · simp at h
      · next hs =>
        have := skipRecord_length hs
        simp only [Except.ok.injEq, Prod.mk.injEq] at h
        rw [← h.2]; omega
    · split at h
      · simp at h
      · next hm =>
        have := readMember_length hm
        simp only [Except.ok.injEq, Prod.mk.injEq] at h
        rw [← h.2]; omega

/-- Read records to the end of the message: the edits they stand for, in order. -/
def readEdits : Bytes → Except Malformed (List Edit)
  | [] => .ok []
  | b :: bs =>
    match h : readRecord (b :: bs) with
    | .error e => .error e
    | .ok (edit, rest) =>
      have := readRecord_length h
      (readEdits rest).map (fun edits => edit.toList ++ edits)
termination_by bs => bs.length
decreasing_by exact this

/-- The event that a message holds. -/
def decode (bs : Bytes) : Except Malformed Event := (readEdits bs).map Event.ofEdits

end EventPipeline.Protobuf
