import EventPipeline.Json.Lexical
/-!
# Values of no interest

Members under unknown names may hold any value, nested as deep as they like. They
are skipped with the lists and objects that are open kept in a list, innermost
first.
-/
namespace EventPipeline.Json

/-- A list or object that has been opened. -/
inductive Frame
  | list | object
deriving DecidableEq

/-- What is skipped next: a value, or what comes after one. -/
inductive Stage
  | value | after
deriving DecidableEq

/-- The part that a document is broken off in if it ends after a value inside a frame. -/
def Frame.part : Frame → Part
  | .list => .list
  | .object => .object

/-- The byte that ends a frame. -/
def Frame.close : Frame → UInt8
  | .list => byte ']'
  | .object => byte '}'

/-- What is missing after a value inside a frame. -/
def Frame.missing : Frame → JsonError
  | .list => .expectedListCommaOrEnd
  | .object => .expectedObjectCommaOrEnd

/-- Skip a key and the colon behind it. -/
def skipKey (bs : Bytes) : Except JsonError Bytes :=
  match skipBlank bs with
  | [] => .error (.endOfDocument .object)
  | b :: rest =>
    if b = byte '"' then
      match skipContent rest with
      | .error e => .error e
      | .ok rest =>
        match skipBlank rest with
        | [] => .error (.endOfDocument .object)
        | c :: rest => if c = byte ':' then .ok rest else .error .expectedColon
    else .error .keyMustBeText

theorem skipKey_length {bs rest : Bytes} (h : skipKey bs = .ok rest) : rest.length < bs.length := by
  have hb := skipBlank_length bs
  unfold skipKey at h
  split at h
  · simp at h
  · next r hr =>
    rw [hr, List.length_cons] at hb
    split at h
    · split at h
      · simp at h
      · next r' hc =>
        have h1 := skipContent_length hc
        have h2 := skipBlank_length r'
        split at h
        · simp at h
        · next r'' hr' =>
          rw [hr', List.length_cons] at h2
          split at h
          · simp only [Except.ok.injEq] at h
            rw [← h]; omega
          · simp at h
    · simp at h

/-- Skip a value without parts, of which `b` is the first byte. -/
def skipScalar (b : UInt8) (bs : Bytes) : Except JsonError Bytes :=
  if b = byte 'n' then expectWord [byte 'u', byte 'l', byte 'l'] bs
  else if b = byte 't' then expectWord [byte 'r', byte 'u', byte 'e'] bs
  else if b = byte 'f' then expectWord [byte 'a', byte 'l', byte 's', byte 'e'] bs
  else if b = byte '-' then skipNumber bs
  else if isDigit b then skipNumber (b :: bs)
  else if b = byte '"' then skipContent bs
  else .error .expectedValue

theorem skipScalar_length {b : UInt8} {bs rest : Bytes} (h : skipScalar b bs = .ok rest) :
    rest.length ≤ bs.length := by
  unfold skipScalar at h
  split at h
  · exact expectWord_length h
  split at h
  · exact expectWord_length h
  split at h
  · exact expectWord_length h
  split at h
  · have := skipNumber_length h; omega
  split at h
  · have := skipNumber_length h
    rw [List.length_cons] at this; omega
  split at h
  · have := skipContent_length h; omega
  · simp at h

/-- Skip a value, or what comes after one, and all that is left of the open frames. -/
def skipFrom (stage : Stage) (frames : List Frame) (bs : Bytes) : Except JsonError Bytes :=
  match stage, frames with
  | .after, [] => .ok bs
  | .after, frame :: outer =>
    match hb : skipBlank bs with
    | [] => .error (.endOfDocument frame.part)
    | b :: rest =>
      have := skipBlank_length bs
      have : rest.length < bs.length := by rw [hb, List.length_cons] at this; omega
      if b = byte ',' then
        match frame with
        | .list => skipFrom .value (.list :: outer) rest
        | .object =>
          match hk : skipKey rest with
          | .error e => .error e
          | .ok rest' =>
            have := skipKey_length hk
            skipFrom .value (.object :: outer) rest'
      else if b = frame.close then skipFrom .after outer rest
      else .error frame.missing
  | .value, frames =>
    match hb : skipBlank bs with
    | [] => .error (.endOfDocument .value)
    | b :: rest =>
      have := skipBlank_length bs
      have : rest.length < bs.length := by rw [hb, List.length_cons] at this; omega
      if b = byte '[' then
        match hr : skipBlank rest with
        | [] => .error (.endOfDocument .list)
        | c :: rest' =>
          have := skipBlank_length rest
          have : rest'.length < rest.length := by rw [hr, List.length_cons] at this; omega
          if c = byte ']' then skipFrom .after frames rest'
          else skipFrom .value (.list :: frames) rest
      else if b = byte '{' then
        match hr : skipBlank rest with
        | [] => .error (.endOfDocument .object)
        | c :: rest' =>
          have := skipBlank_length rest
          have : rest'.length < rest.length := by rw [hr, List.length_cons] at this; omega
          if c = byte '}' then skipFrom .after frames rest'
          else
            match hk : skipKey rest with
            | .error e => .error e
            | .ok rest'' =>
              have := skipKey_length hk
              skipFrom .value (.object :: frames) rest''
      else
        match hs : skipScalar b rest with
        | .error e => .error e
        | .ok rest' =>
          have := skipScalar_length hs
          skipFrom .after frames rest'
termination_by bs.length

/-- Skip a value. -/
def skipValue (bs : Bytes) : Except JsonError Bytes := skipFrom .value [] bs

theorem skipFrom_length {stage : Stage} {frames : List Frame} {bs rest : Bytes}
    (h : skipFrom stage frames bs = .ok rest) : rest.length ≤ bs.length := by
  fun_induction skipFrom stage frames bs <;> grind

end EventPipeline.Json
