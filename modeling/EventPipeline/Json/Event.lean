import EventPipeline.Event.Basic
import EventPipeline.Json.Skip
/-!
# Events from JSON documents

A document holds an event as an object, whose members come in any order, may be
missing, and may stand beside members under other names, which are skipped; or as
a list of values in the order of the members, which may end early. A name given
twice is refused. See the specification, 4.7.
-/
namespace EventPipeline.Json

/-! ## What stands where something else is called for -/

/-- The found thing after a word, or the word's error. -/
def afterWord (expected : Expected) (found : Found) : Except JsonError Bytes → JsonError
  | .error e => e
  | .ok _ => .wrongType found expected

/-- What a number is found to be. -/
def Number.found : Number → Found
  | .whole i => .integer i
  | .float x => .float x

/-- The error for a value, starting with `b`, that is not of the expected kind. A value that
is not well formed is refused for that. -/
def mismatch (expected : Expected) (b : UInt8) (rest : Bytes) : JsonError :=
  if b = byte 'n' then
    afterWord expected .null (expectWord [byte 'u', byte 'l', byte 'l'] rest)
  else if b = byte 't' then
    afterWord expected (.boolean true) (expectWord [byte 'r', byte 'u', byte 'e'] rest)
  else if b = byte 'f' then
    afterWord expected (.boolean false)
      (expectWord [byte 'a', byte 'l', byte 's', byte 'e'] rest)
  else if b = byte '-' then
    match readNumber true rest with
    | .error e => e
    | .ok (n, _) => .wrongType n.found expected
  else if isDigit b then
    match readNumber false (b :: rest) with
    | .error e => e
    | .ok (n, _) => .wrongType n.found expected
  else if b = byte '"' then
    match readString rest with
    | .error e => e
    | .ok (s, _) => .wrongType (.text s) expected
  else if b = byte '[' then .wrongType .list expected
  else if b = byte '{' then .wrongType .object expected
  else .expectedValue

/-! ## Values of members -/

/-- Read a text. -/
def readText (bs : Bytes) : Except JsonError (String × Bytes) :=
  match skipBlank bs with
  | [] => .error (.endOfDocument .value)
  | b :: rest => if b = byte '"' then readString rest else .error (mismatch .text b rest)

/-- Read a whole number that lies in `-bound ≤ i < bound`. -/
def readInteger (expected : Expected) (bound : Nat) (bs : Bytes) : Except JsonError (Int × Bytes) :=
  let inRange : Number × Bytes → Except JsonError (Int × Bytes)
    | (.float x, _) => .error (.wrongType (.float x) expected)
    | (.whole i, rest) =>
      if -(bound : Int) ≤ i ∧ i < bound then .ok (i, rest) else .error (.wrongValue i expected)
  match skipBlank bs with
  | [] => .error (.endOfDocument .value)
  | b :: rest =>
    if b = byte '-' then (readNumber true rest).bind inRange
    else if isDigit b then (readNumber false (b :: rest)).bind inRange
    else .error (mismatch expected b rest)

/-- Find the next key of an object: nothing and the rest after the closing brace, or the key
and the rest after it. -/
def nextKey (first : Bool) (bs : Bytes) : Except JsonError (Option String × Bytes) :=
  let key : Bytes → Except JsonError (Option String × Bytes)
    | rest => (readString rest).map (fun (s, rest) => (some s, rest))
  match skipBlank bs with
  | [] => .error (.endOfDocument .object)
  | b :: rest =>
    if b = byte '}' then .ok (none, rest)
    else if first then if b = byte '"' then key rest else .error .keyMustBeText
    else if b = byte ',' then
      match skipBlank rest with
      | [] => .error (.endOfDocument .value)
      | c :: rest =>
        if c = byte '"' then key rest
        else if c = byte '}' then .error .trailingComma
        else .error .keyMustBeText
    else .error .expectedObjectCommaOrEnd

/-- Read the colon after a key. -/
def readColon (bs : Bytes) : Except JsonError Bytes :=
  match skipBlank bs with
  | [] => .error (.endOfDocument .object)
  | b :: rest => if b = byte ':' then .ok rest else .error .expectedColon

theorem readColon_length {bs rest : Bytes} (h : readColon bs = .ok rest) :
    rest.length < bs.length := by
  have := skipBlank_length bs
  unfold readColon at h
  grind

theorem nextKey_length {first : Bool} {key : Option String} {bs rest : Bytes}
    (h : nextKey first bs = .ok (key, rest)) : rest.length < bs.length := by
  have hk : ∀ r, (readString r).map (fun (s, rest) => (some s, rest)) = .ok (key, rest) →
      rest.length < r.length := by
    intro r hr
    obtain ⟨⟨s, r'⟩, hs, he⟩ := map_eq_ok hr
    simp only [Prod.mk.injEq] at he
    rw [← he.2]
    exact readString_length hs
  have h1 := skipBlank_length bs
  unfold nextKey at h
  split at h
  · simp at h
  · next b r hb =>
    have h2 := skipBlank_length r
    rw [hb, List.length_cons] at h1
    grind

theorem readText_length {s : String} {bs rest : Bytes} (h : readText bs = .ok (s, rest)) :
    rest.length < bs.length := by
  have h1 := skipBlank_length bs
  unfold readText at h
  split at h
  · simp at h
  · next b r hb =>
    rw [hb, List.length_cons] at h1
    split at h
    · have := readString_length h; omega
    · simp at h

/-- Read the entries of an object of texts: those already read come first. -/
def readEntries (first : Bool) (entries : List (String × String)) (bs : Bytes) :
    Except JsonError (List (String × String) × Bytes) :=
  match hk : nextKey first bs with
  | .error e => .error e
  | .ok (none, rest) => .ok (entries, rest)
  | .ok (some key, rest) =>
    match hc : readColon rest with
    | .error e => .error e
    | .ok rest' =>
      match ht : readText rest' with
      | .error e => .error e
      | .ok (value, rest'') =>
        have := nextKey_length hk
        have := readColon_length hc
        have := readText_length ht
        readEntries false (entries ++ [(key, value)]) rest''
termination_by bs.length

/-- Read an object of texts; of two entries under one key the later stays. -/
def readProperties (bs : Bytes) : Except JsonError (Properties × Bytes) :=
  match skipBlank bs with
  | [] => .error (.endOfDocument .value)
  | b :: rest =>
    if b = byte '{' then
      (readEntries true [] rest).map (fun (entries, rest) => (Dict.ofList entries, rest))
    else .error (mismatch .properties b rest)

/-- Read a value of the given kind. -/
def readValue : (k : Kind) → Bytes → Except JsonError (k.Value × Bytes)
  | .text, bs => readText bs
  | .int32, bs =>
    (readInteger .int32 (Int32.size / 2) bs).map (fun (i, rest) => (Int32.ofInt i, rest))
  | .int64, bs =>
    (readInteger .int64 (Int64.size / 2) bs).map (fun (i, rest) => (Int64.ofInt i, rest))
  | .properties, bs => readProperties bs

theorem bind_eq_ok {α β : Type} {x : Except JsonError α} {f : α → Except JsonError β} {b : β}
    (h : x.bind f = .ok b) : ∃ a, x = .ok a ∧ f a = .ok b := by
  cases x with
  | error e => simp [Except.bind] at h
  | ok a => exact ⟨a, rfl, by simpa [Except.bind] using h⟩

theorem readInteger_length {expected : Expected} {bound : Nat} {i : Int} {bs rest : Bytes}
    (h : readInteger expected bound bs = .ok (i, rest)) : rest.length < bs.length := by
  have h1 := skipBlank_length bs
  unfold readInteger at h
  dsimp only at h
  split at h
  · simp at h
  · next b r hb =>
    rw [hb, List.length_cons] at h1
    split at h
    · obtain ⟨⟨n, r'⟩, hn, he⟩ := bind_eq_ok h
      have := readNumber_length hn
      grind
    · split at h
      · obtain ⟨⟨n, r'⟩, hn, he⟩ := bind_eq_ok h
        have := readNumber_length hn
        rw [List.length_cons] at this
        grind
      · simp at h

theorem readEntries_length {first : Bool} {entries result : List (String × String)}
    {bs rest : Bytes} (h : readEntries first entries bs = .ok (result, rest)) :
    rest.length < bs.length := by
  fun_induction readEntries first entries bs with
  | case1 | case3 | case4 => simp at h
  | case2 =>
    rename_i hk
    have := nextKey_length hk
    simp only [Except.ok.injEq, Prod.mk.injEq] at h
    rwa [← h.2]
  | case5 =>
    rename_i ih
    have := ih h
    omega

theorem readValue_length {k : Kind} {v : k.Value} {bs rest : Bytes}
    (h : readValue k bs = .ok (v, rest)) : rest.length < bs.length := by
  cases k with
  | text => exact readText_length h
  | int32 =>
    obtain ⟨⟨i, r⟩, hr, he⟩ := map_eq_ok h
    simp only [Prod.mk.injEq] at he
    rw [← he.2]; exact readInteger_length hr
  | int64 =>
    obtain ⟨⟨i, r⟩, hr, he⟩ := map_eq_ok h
    simp only [Prod.mk.injEq] at he
    rw [← he.2]; exact readInteger_length hr
  | properties =>
    have h1 := skipBlank_length bs
    simp only [readValue, readProperties] at h
    split at h
    · simp at h
    · next b r hb =>
      rw [hb, List.length_cons] at h1
      split at h
      · obtain ⟨⟨l, r'⟩, hr, he⟩ := map_eq_ok h
        simp only [Prod.mk.injEq] at he
        have := readEntries_length hr
        rw [← he.2]; omega
      · simp at h

/-! ## Events -/

/-- The members given so far, each with its value. -/
abbrev Given := List ((m : Member) × m.kind.Value)

/-- Whether a member is among those given. -/
def Given.has (given : Given) (m : Member) : Bool := given.any (fun g => g.1 = m)

/-- Read the members of an event up to the closing brace: those already read come first. -/
def readMembers (first : Bool) (given : Given) (bs : Bytes) : Except JsonError (Given × Bytes) :=
  match hk : nextKey first bs with
  | .error e => .error e
  | .ok (none, rest) => .ok (given, rest)
  | .ok (some key, rest) =>
    have := nextKey_length hk
    match Member.ofName? key with
    | none =>
      match hc : readColon rest with
      | .error e => .error e
      | .ok rest' =>
        have := readColon_length hc
        match hs : skipValue rest' with
        | .error e => .error e
        | .ok rest'' =>
          have := skipFrom_length hs
          readMembers false given rest''
    | some m =>
      if given.has m then .error (.duplicate m)
      else
        match hc : readColon rest with
        | .error e => .error e
        | .ok rest' =>
          have := readColon_length hc
          match hv : readValue m.kind rest' with
          | .error e => .error e
          | .ok (v, rest'') =>
            have := readValue_length hv
            readMembers false (given ++ [⟨m, v⟩]) rest''
termination_by bs.length

/-- Find the next element of a list: nothing if the closing bracket comes next, or the rest
from the element on. -/
def nextElement (first : Bool) (bs : Bytes) : Except JsonError (Option Bytes) :=
  match skipBlank bs with
  | [] => .error (.endOfDocument .list)
  | b :: rest =>
    if b = byte ']' then .ok none
    else if first then .ok (some (b :: rest))
    else if b = byte ',' then
      match skipBlank rest with
      | [] => .error (.endOfDocument .value)
      | c :: rest => if c = byte ']' then .error .trailingComma else .ok (some (c :: rest))
    else .error .expectedListCommaOrEnd

/-- Read the values of `members`, in this order, from a list that may end early. -/
def readElements (first : Bool) : List Member → Bytes → Except JsonError (Given × Bytes)
  | [], bs => .ok ([], bs)
  | m :: members, bs =>
    match nextElement first bs with
    | .error e => .error e
    | .ok none => .ok ([], bs)
    | .ok (some rest) =>
      match readValue m.kind rest with
      | .error e => .error e
      | .ok (v, rest) =>
        (readElements false members rest).map (fun (given, rest) => (⟨m, v⟩ :: given, rest))

/-- Read the end of a list. -/
def readListEnd (bs : Bytes) : Except JsonError Bytes :=
  match skipBlank bs with
  | [] => .error (.endOfDocument .list)
  | b :: rest =>
    if b = byte ']' then .ok rest
    else if b = byte ',' then
      if (skipBlank rest).head? = some (byte ']') then .error .trailingComma
      else .error .trailingCharacters
    else .error .trailingCharacters

/-- Read the members of an event, as an object or as a list. -/
def readEvent (bs : Bytes) : Except JsonError (Given × Bytes) :=
  match skipBlank bs with
  | [] => .error (.endOfDocument .value)
  | b :: rest =>
    if b = byte '{' then readMembers true [] rest
    else if b = byte '[' then
      match readElements true Member.all rest with
      | .error e => .error e
      | .ok (given, rest) => (readListEnd rest).map (fun rest => (given, rest))
    else .error (mismatch .event b rest)

/-- The event that a document holds. -/
def decode (bs : Bytes) : Except JsonError Event :=
  match readEvent bs with
  | .error e => .error e
  | .ok (given, rest) =>
    if skipBlank rest = [] then .ok (.ofEdits (given.map (fun g => .assign g.1 g.2)))
    else .error .trailingCharacters

end EventPipeline.Json
