import EventPipeline.Bytes
/-!
# The protobuf wire format

A message is a sequence of records, each a key followed by a value. The key holds
the number of a field and the wire type, which says how long the value is. Whole
numbers are varints: seven bits a byte, the lowest first, the top bit set on all
but the last byte, and at most 64 bits in all.

Readers take a byte sequence and return what they read and the rest;
`readVarint_length` and `readKey_length` say that the rest is shorter.
-/
namespace EventPipeline.Protobuf

/-- How the value of a record is delimited. -/
inductive WireType
  | varint | sixtyFourBit | lengthDelimited | startGroup | endGroup | thirtyTwoBit
deriving DecidableEq

/-- What can be wrong with a message. -/
inductive WireError
  | invalidVarint
  | underflow
  | invalidKey (key : Nat)
  | invalidWireType (code : Nat)
  | invalidTag
  | wrongWireType (found expected : WireType)
  | recursionLimit
  | delimitedLengthExceeded
  | unexpectedEndGroup
  | notUtf8
deriving DecidableEq

namespace WireType

/-- The wire type with the given code. -/
def ofCode? : Nat → Option WireType
  | 0 => some .varint
  | 1 => some .sixtyFourBit
  | 2 => some .lengthDelimited
  | 3 => some .startGroup
  | 4 => some .endGroup
  | 5 => some .thirtyTwoBit
  | _ => none

/-- The code of a wire type. -/
def code : WireType → Nat
  | .varint => 0
  | .sixtyFourBit => 1
  | .lengthDelimited => 2
  | .startGroup => 3
  | .endGroup => 4
  | .thirtyTwoBit => 5

/-- The name of a wire type in messages. -/
def name : WireType → String
  | .varint => "Varint"
  | .sixtyFourBit => "SixtyFourBit"
  | .lengthDelimited => "LengthDelimited"
  | .startGroup => "StartGroup"
  | .endGroup => "EndGroup"
  | .thirtyTwoBit => "ThirtyTwoBit"

@[simp] theorem ofCode?_code (t : WireType) : ofCode? t.code = some t := by cases t <;> rfl

end WireType

/-- The wording of an error. -/
def WireError.message : WireError → String
  | .invalidVarint => "invalid varint"
  | .underflow => "buffer underflow"
  | .invalidKey key => "invalid key value: " ++ key.repr
  | .invalidWireType code => "invalid wire type value: " ++ code.repr
  | .invalidTag => "invalid tag value: 0"
  | .wrongWireType found expected =>
    "invalid wire type: " ++ found.name ++ " (expected " ++ expected.name ++ ")"
  | .recursionLimit => "recursion limit reached"
  | .delimitedLengthExceeded => "delimited length exceeded"
  | .unexpectedEndGroup => "unexpected end group tag"
  | .notUtf8 => "invalid string value: data is not UTF-8 encoded"

/-! ## Varints -/

/-- The bytes of the varint `n`. -/
def writeVarint (n : Nat) : Bytes :=
  if n < 128 then [UInt8.ofNat n]
  else UInt8.ofNat (n % 128 + 128) :: writeVarint (n / 128)
termination_by n

/-- Read a varint of which `i` bytes are read: the tenth has room for a single bit. -/
def readVarintFrom (i : Nat) : Bytes → Except WireError (Nat × Bytes)
  | [] => .error .invalidVarint
  | b :: rest =>
    if b.toNat < 128 then
      if i = 9 ∧ 2 ≤ b.toNat then .error .invalidVarint else .ok (b.toNat, rest)
    else if i = 9 then .error .invalidVarint
    else
      match readVarintFrom (i + 1) rest with
      | .error e => .error e
      | .ok (n, rest) => .ok (b.toNat - 128 + 128 * n, rest)

/-- Read a varint. -/
def readVarint (bs : Bytes) : Except WireError (Nat × Bytes) := readVarintFrom 0 bs

theorem readVarintFrom_length {i n : Nat} {bs rest : Bytes}
    (h : readVarintFrom i bs = .ok (n, rest)) : rest.length < bs.length := by
  induction bs generalizing i n rest with
  | nil => simp [readVarintFrom] at h
  | cons b bs ih =>
    simp only [readVarintFrom] at h
    split at h
    · split at h
      · simp at h
      · simp only [Except.ok.injEq, Prod.mk.injEq] at h
        simp [← h.2]
    · split at h
      · simp at h
      · split at h
        · simp at h
        · next hr =>
          simp only [Except.ok.injEq, Prod.mk.injEq] at h
          have := ih hr
          rw [← h.2, List.length_cons]
          omega

theorem readVarint_length {n : Nat} {bs rest : Bytes} (h : readVarint bs = .ok (n, rest)) :
    rest.length < bs.length :=
  readVarintFrom_length h

/-! ## Keys -/

/-- The key of a record. -/
structure Key where
  number : Nat
  wireType : WireType
deriving DecidableEq

/-- The bytes of a key. -/
def writeKey (k : Key) : Bytes := writeVarint (8 * k.number + k.wireType.code)

/-- Read a key: a varint of 32 bits, whose lowest three are the wire type's code. -/
def readKey (bs : Bytes) : Except WireError (Key × Bytes) :=
  match readVarint bs with
  | .error e => .error e
  | .ok (n, rest) =>
    if UInt32.size ≤ n then .error (.invalidKey n)
    else
      match WireType.ofCode? (n % 8) with
      | none => .error (.invalidWireType (n % 8))
      | some t => if n / 8 = 0 then .error .invalidTag else .ok (⟨n / 8, t⟩, rest)

theorem readKey_length {k : Key} {bs rest : Bytes} (h : readKey bs = .ok (k, rest)) :
    rest.length < bs.length := by
  unfold readKey at h
  split at h
  · simp at h
  · next hv =>
    have := readVarint_length hv
    split at h
    · simp at h
    · split at h
      · simp at h
      · split at h
        · simp at h
        · simp only [Except.ok.injEq, Prod.mk.injEq] at h
          rwa [← h.2]

/-! ## Values -/

/-- The bytes from here on without the first `n`. -/
def advance (n : Nat) (bs : Bytes) : Except WireError Bytes :=
  if bs.length < n then .error .underflow else .ok (bs.drop n)

theorem advance_length {n : Nat} {bs rest : Bytes} (h : advance n bs = .ok rest) :
    rest.length ≤ bs.length := by
  unfold advance at h
  split at h
  · simp at h
  · simp only [Except.ok.injEq] at h
    simp [← h]

/-- A length and that many bytes. -/
def writeDelimited (content : Bytes) : Bytes := writeVarint content.length ++ content

/-- Read a length and that many bytes. -/
def readDelimited (bs : Bytes) : Except WireError (Bytes × Bytes) :=
  match readVarint bs with
  | .error e => .error e
  | .ok (n, rest) => if rest.length < n then .error .underflow else .ok (rest.take n, rest.drop n)

theorem readDelimited_length {content bs rest : Bytes}
    (h : readDelimited bs = .ok (content, rest)) : rest.length < bs.length := by
  unfold readDelimited at h
  split at h
  · simp at h
  · next hv =>
    have := readVarint_length hv
    split at h
    · simp at h
    · simp only [Except.ok.injEq, Prod.mk.injEq] at h
      rw [← h.2, List.length_drop]
      omega

/-! ## Records of no interest -/

/-- Skip the value of a record that is not a group. -/
def skipValue (t : WireType) (bs : Bytes) : Except WireError Bytes :=
  match t with
  | .varint => (readVarint bs).map Prod.snd
  | .thirtyTwoBit => advance 4 bs
  | .sixtyFourBit => advance 8 bs
  | .lengthDelimited => (readDelimited bs).map Prod.snd
  | .startGroup | .endGroup => .error .unexpectedEndGroup

theorem skipValue_length {t : WireType} {bs rest : Bytes} (h : skipValue t bs = .ok rest) :
    rest.length ≤ bs.length := by
  cases t with
  | varint =>
    cases hv : readVarint bs with
    | error e => simp [skipValue, hv, Except.map] at h
    | ok p =>
      obtain ⟨n, r⟩ := p
      simp only [skipValue, hv, Except.map, Except.ok.injEq] at h
      have := readVarint_length hv
      rw [← h]; omega
  | lengthDelimited =>
    cases hv : readDelimited bs with
    | error e => simp [skipValue, hv, Except.map] at h
    | ok p =>
      obtain ⟨content, r⟩ := p
      simp only [skipValue, hv, Except.map, Except.ok.injEq] at h
      have := readDelimited_length hv
      rw [← h]; omega
  | thirtyTwoBit => exact advance_length h
  | sixtyFourBit => exact advance_length h
  | startGroup | endGroup => simp [skipValue] at h

/-- Skip what is left of the groups with the numbers `opens`, the innermost first. No more
than `depth` groups may be open around a record. -/
def skipGroups (depth : Nat) : List Nat → Bytes → Except WireError Bytes
  | [], bs => .ok bs
  | number :: outer, bs =>
    match h : readKey bs with
    | .error e => .error e
    | .ok (key, rest) =>
      have := readKey_length h
      if key.wireType = .endGroup then
        if key.number = number then skipGroups depth outer rest else .error .unexpectedEndGroup
      else if depth < outer.length + 2 then .error .recursionLimit
      else if key.wireType = .startGroup then
        skipGroups depth (key.number :: number :: outer) rest
      else
        match hv : skipValue key.wireType rest with
        | .error e => .error e
        | .ok rest' =>
          have := skipValue_length hv
          skipGroups depth (number :: outer) rest'
termination_by _ bs => bs.length

/-- Skip the value of the record with the given key. -/
def skipRecord (depth : Nat) (key : Key) (bs : Bytes) : Except WireError Bytes :=
  match key.wireType with
  | .startGroup => skipGroups depth [key.number] bs
  | t => skipValue t bs

theorem skipGroups_length {depth : Nat} {opens : List Nat} {bs rest : Bytes}
    (h : skipGroups depth opens bs = .ok rest) : rest.length ≤ bs.length := by
  fun_induction skipGroups depth opens bs with
  | case1 => simp only [Except.ok.injEq] at h; simp [h]
  | case2 | case4 | case5 | case7 => simp at h
  | case3 => rename_i hlt _ _ ih; have := ih h; omega
  | case6 => rename_i hlt _ _ _ ih; have := ih h; omega
  | case8 => rename_i hlt _ _ _ _ _ hle ih; have := ih h; omega

theorem skipRecord_length {depth : Nat} {key : Key} {bs rest : Bytes}
    (h : skipRecord depth key bs = .ok rest) : rest.length ≤ bs.length := by
  unfold skipRecord at h
  split at h
  · exact skipGroups_length h
  · exact skipValue_length h

end EventPipeline.Protobuf
