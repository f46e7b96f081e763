import EventPipeline.Bytes
import EventPipeline.Json.Error
/-!
# Strings, numbers and words of JSON

Readers take the bytes from where they stand and return what they read and the
rest, which is shorter (`readContent_length`, `skipContent_length`,
`skipNumber_length`). A string that is skipped need not be UTF-8 and its escapes
need not name characters; a number that is skipped may be of any size.
-/
namespace EventPipeline.Json

/-- The byte of an ASCII character. -/
def byte (c : Char) : UInt8 := UInt8.ofNat c.toNat

/-- White space between tokens. -/
def isBlank (b : UInt8) : Bool :=
  b = byte ' ' || b = byte '\n' || b = byte '\t' || b = byte '\r'

/-- The bytes from the next token on. -/
def skipBlank (bs : Bytes) : Bytes := bs.dropWhile isBlank

theorem length_dropWhile_le {α : Type} (p : α → Bool) (l : List α) :
    (l.dropWhile p).length ≤ l.length :=
  (List.dropWhile_sublist p).length_le

theorem skipBlank_length (bs : Bytes) : (skipBlank bs).length ≤ bs.length :=
  length_dropWhile_le _ bs

/-- Read the rest of a word whose first letter has been read. -/
def expectWord : Bytes → Bytes → Except JsonError Bytes
  | [], bs => .ok bs
  | _ :: _, [] => .error (.endOfDocument .value)
  | w :: word, b :: bs => if b = w then expectWord word bs else .error .expectedIdent

theorem expectWord_length {word bs rest : Bytes} (h : expectWord word bs = .ok rest) :
    rest.length ≤ bs.length := by
  induction word generalizing bs with
  | nil =>
    simp only [expectWord, Except.ok.injEq] at h
    simp [h]
  | cons w word ih =>
    cases bs with
    | nil => simp [expectWord] at h
    | cons b bs =>
      rw [expectWord] at h
      split at h
      · have := ih h
        simp only [List.length_cons]; omega
      · simp at h

/-! ## Strings -/

/-- The value of a hexadecimal digit. -/
def hexDigit? (b : UInt8) : Option Nat :=
  let n := b.toNat
  if '0'.toNat ≤ n ∧ n ≤ '9'.toNat then some (n - '0'.toNat)
  else if 'a'.toNat ≤ n ∧ n ≤ 'f'.toNat then some (n - 'a'.toNat + 10)
  else if 'A'.toNat ≤ n ∧ n ≤ 'F'.toNat then some (n - 'A'.toNat + 10)
  else none

/-- The value of four hexadecimal digits. -/
def hexValue? (a b c d : UInt8) : Option Nat := do
  return ((← hexDigit? a) * 16 + (← hexDigit? b)) * 256 + (← hexDigit? c) * 16 + (← hexDigit? d)

/-- Read four hexadecimal digits. -/
def readHex : Bytes → Except JsonError (Nat × Bytes)
  | a :: b :: c :: d :: rest =>
    match hexValue? a b c d with
    | some n => .ok (n, rest)
    | none => .error .invalidEscape
  | _ => .error (.endOfDocument .text)

theorem readHex_length {n : Nat} {bs rest : Bytes} (h : readHex bs = .ok (n, rest)) :
    rest.length < bs.length := by
  unfold readHex at h
  split at h
  · split at h
    · simp only [Except.ok.injEq, Prod.mk.injEq] at h
      rw [← h.2]; simp only [List.length_cons]; omega
    · simp at h
  · simp at h

/-- The byte that a one letter escape stands for. -/
def simpleEscape? (b : UInt8) : Option UInt8 :=
  if b = byte '"' ∨ b = byte '\\' ∨ b = byte '/' then some b
  else if b = byte 'b' then some 8
  else if b = byte 'f' then some 12
  else if b = byte 'n' then some 10
  else if b = byte 'r' then some 13
  else if b = byte 't' then some 9
  else none

/-- Halves of a surrogate pair. -/
def isLeading (n : Nat) : Bool := 0xD800 ≤ n && n ≤ 0xDBFF

/-- The second halves. -/
def isTrailing (n : Nat) : Bool := 0xDC00 ≤ n && n ≤ 0xDFFF

/-- The character of a surrogate pair. -/
def pairValue (leading trailing : Nat) : Nat :=
  (leading - 0xD800) * 0x400 + (trailing - 0xDC00) + 0x10000

/-- Read the `\uXXXX` that has to follow a leading surrogate. -/
def readTrailing : Bytes → Except JsonError (Nat × Bytes)
  | [] => .error (.endOfDocument .text)
  | b :: bs =>
    if b = byte '\\' then
      match bs with
      | [] => .error (.endOfDocument .text)
      | c :: rest => if c = byte 'u' then readHex rest else .error .endOfHexEscape
    else .error .endOfHexEscape

/-- Read the digits of a `\u` escape, and of a second one after a leading surrogate. -/
def readCodePoint (bs : Bytes) : Except JsonError (Nat × Bytes) :=
  match readHex bs with
  | .error e => .error e
  | .ok (n, rest) =>
    if isTrailing n then .error .loneSurrogate
    else if isLeading n then
      match readTrailing rest with
      | .error e => .error e
      | .ok (t, rest) =>
        if isTrailing t then .ok (pairValue n t, rest) else .error .loneSurrogate
    else .ok (n, rest)

/-- Read an escape from after the backslash: the bytes it stands for. -/
def readEscape : Bytes → Except JsonError (Bytes × Bytes)
  | [] => .error (.endOfDocument .text)
  | b :: rest =>
    if b = byte 'u' then
      (readCodePoint rest).map (fun (n, rest) => (String.utf8EncodeChar (Char.ofNat n), rest))
    else
      match simpleEscape? b with
      | some c => .ok ([c], rest)
      | none => .error .invalidEscape

theorem readTrailing_length {n : Nat} {bs rest : Bytes} (h : readTrailing bs = .ok (n, rest)) :
    rest.length < bs.length := by
  unfold readTrailing at h
  split at h
  · simp at h
  · split at h
    · split at h
      · simp at h
      · split at h
        · have := readHex_length h
          simp only [List.length_cons]; omega
        · simp at h
    · simp at h

theorem readCodePoint_length {n : Nat} {bs rest : Bytes} (h : readCodePoint bs = .ok (n, rest)) :
    rest.length < bs.length := by
  unfold readCodePoint at h
  split at h
  · simp at h
  · next hx =>
    have := readHex_length hx
    split at h
    · simp at h
    · split at h
      · split at h
        · simp at h
        · next ht =>
          have := readTrailing_length ht
          split at h
          · simp only [Except.ok.injEq, Prod.mk.injEq] at h
            rw [← h.2]; omega
          · simp at h
      · simp only [Except.ok.injEq, Prod.mk.injEq] at h
        rwa [← h.2]

theorem readEscape_length {content bs rest : Bytes} (h : readEscape bs = .ok (content, rest)) :
    rest.length < bs.length := by
  unfold readEscape at h
  split at h
  · simp at h
  · split at h
    · next r _ =>
      cases hc : readCodePoint r with
      | error e => simp [hc, Except.map] at h
      | ok p =>
        obtain ⟨n, r'⟩ := p
        simp only [hc, Except.map, Except.ok.injEq, Prod.mk.injEq] at h
        have := readCodePoint_length hc
        rw [← h.2, List.length_cons]; omega
    · split at h
      · simp only [Except.ok.injEq, Prod.mk.injEq] at h
        simp [← h.2]
      · simp at h

/-- Read the content of a string up to its closing quote, escapes resolved. -/
def readContent : Bytes → Except JsonError (Bytes × Bytes)
  | [] => .error (.endOfDocument .text)
  | b :: bs =>
    if b = byte '"' then .ok ([], bs)
    else if b = byte '\\' then
      match h : readEscape bs with
      | .error e => .error e
      | .ok (c, rest) =>
        have := readEscape_length h
        (readContent rest).map (fun (content, rest) => (c ++ content, rest))
    else if b.toNat < 0x20 then .error .controlCharacter
    else (readContent bs).map (fun (content, rest) => (b :: content, rest))
termination_by bs => bs.length

theorem map_eq_ok {α β : Type} {x : Except JsonError α} {f : α → β} {b : β}
    (h : x.map f = .ok b) : ∃ a, x = .ok a ∧ f a = b := by
  cases x with
  | error e => simp [Except.map] at h
  | ok a => exact ⟨a, rfl, by simpa [Except.map] using h⟩

theorem readContent_length {content bs rest : Bytes}
    (h : readContent bs = .ok (content, rest)) : rest.length < bs.length := by
  fun_induction readContent bs generalizing content rest with
  | case1 => simp at h
  | case2 =>
    simp only [Except.ok.injEq, Prod.mk.injEq] at h
    simp [← h.2]
  | case3 => simp at h
  | case4 =>
    rename_i hlt ih
    obtain ⟨⟨c, r⟩, hr, he⟩ := map_eq_ok h
    simp only [Prod.mk.injEq] at he
    have := ih hr
    rw [← he.2, List.length_cons]; omega
  | case5 => simp at h
  | case6 =>
    rename_i ih
    obtain ⟨⟨c, r⟩, hr, he⟩ := map_eq_ok h
    simp only [Prod.mk.injEq] at he
    have := ih hr
    rw [← he.2, List.length_cons]; omega

/-- Read a string whose opening quote has been read. -/
def readString (bs : Bytes) : Except JsonError (String × Bytes) :=
  match readContent bs with
  | .error e => .error e
  | .ok (content, rest) =>
    match Bytes.toText? content with
    | none => .error .invalidCodePoint
    | some s => .ok (s, rest)

theorem readString_length {s : String} {bs rest : Bytes} (h : readString bs = .ok (s, rest)) :
    rest.length < bs.length := by
  unfold readString at h
  split at h
  · simp at h
  · next hc =>
    have := readContent_length hc
    split at h
    · simp at h
    · simp only [Except.ok.injEq, Prod.mk.injEq] at h
      rwa [← h.2]

/-- Skip an escape from after the backslash. -/
def skipEscape : Bytes → Except JsonError Bytes
  | [] => .error (.endOfDocument .text)
  | b :: rest =>
    if b = byte 'u' then (readHex rest).map Prod.snd
    else if (simpleEscape? b).isSome then .ok rest
    else .error .invalidEscape

theorem skipEscape_length {bs rest : Bytes} (h : skipEscape bs = .ok rest) :
    rest.length < bs.length := by
  unfold skipEscape at h
  split at h
  · simp at h
  · split at h
    · obtain ⟨⟨n, r⟩, hr, he⟩ := map_eq_ok h
      have := readHex_length hr
      simp only at he
      rw [← he, List.length_cons]; omega
    · split at h
      · simp only [Except.ok.injEq] at h
        simp [← h]
      · simp at h

/-- Skip the content of a string and its closing quote. -/
def skipContent : Bytes → Except JsonError Bytes
  | [] => .error (.endOfDocument .text)
  | b :: bs =>
    if b = byte '"' then .ok bs
    else if b = byte '\\' then
      match h : skipEscape bs with
      | .error e => .error e
      | .ok rest =>
        have := skipEscape_length h
        skipContent rest
    else if b.toNat < 0x20 then .error .controlCharacter
    else skipContent bs
termination_by bs => bs.length

theorem skipContent_length {bs rest : Bytes} (h : skipContent bs = .ok rest) :
    rest.length < bs.length := by
  fun_induction skipContent bs with
  | case1 => simp at h
  | case2 =>
    simp only [Except.ok.injEq] at h
    simp [← h]
  | case3 => simp at h
  | case4 =>
    rename_i hlt ih
    have := ih h
    rw [List.length_cons]; omega
  | case5 => simp at h
  | case6 =>
    rename_i ih
    have := ih h
    rw [List.length_cons]; omega

/-! ## Numbers -/

/-- Whether a byte is a decimal digit. -/
def isDigit (b : UInt8) : Bool := byte '0' ≤ b && b ≤ byte '9'

/-- The value of a decimal digit. -/
def digitValue (b : UInt8) : Nat := b.toNat - '0'.toNat

/-- A run of digits and what follows it. -/
def spanDigits (bs : Bytes) : Bytes × Bytes := (bs.takeWhile isDigit, bs.dropWhile isDigit)

theorem spanDigits_length (bs : Bytes) : (spanDigits bs).2.length ≤ bs.length :=
  length_dropWhile_le _ bs

/-- The digits before the point, and the rest: at least one, and a zero only by itself. -/
def readWhole : Bytes → Except JsonError (Bytes × Bytes)
  | [] => .error (.endOfDocument .value)
  | b :: bs =>
    if b = byte '0' then
      match bs with
      | [] => .ok ([b], [])
      | c :: rest => if isDigit c then .error .invalidNumber else .ok ([b], c :: rest)
    else if isDigit b then .ok (b :: (spanDigits bs).1, (spanDigits bs).2)
    else .error .invalidNumber

theorem readWhole_length {ds bs rest : Bytes} (h : readWhole bs = .ok (ds, rest)) :
    rest.length < bs.length := by
  unfold readWhole at h
  split at h
  · simp at h
  · split at h
    · split at h
      · simp only [Except.ok.injEq, Prod.mk.injEq] at h
        simp [← h.2]
      · split at h
        · simp at h
        · simp only [Except.ok.injEq, Prod.mk.injEq] at h
          simp [← h.2]
    · split at h
      · next b bs _ _ =>
        simp only [Except.ok.injEq, Prod.mk.injEq] at h
        have := spanDigits_length bs
        rw [← h.2, List.length_cons]; omega
      · simp at h

/-- A number as read: whole, or of double precision. -/
inductive Number
  | whole (i : Int)
  | float (x : Decimal.Signed)
deriving DecidableEq

/-- The part of a number before its exponent: the digits kept, and the power of ten by which
they count. -/
structure Significand where
  digits : Nat
  power : Int

/-- Append digits as long as the result fits in 64 bits: the result and what is left. -/
def gather (n : Nat) : Bytes → Nat × Bytes
  | [] => (n, [])
  | b :: bs =>
    if 10 * n + digitValue b < UInt64.size then gather (10 * n + digitValue b) bs else (n, b :: bs)

/-- A significand made larger by digits before the point. -/
def Significand.ofWhole (ds : Bytes) : Significand :=
  let (n, dropped) := gather 0 ds
  ⟨n, dropped.length⟩

/-- A significand with digits after the point; those that do not fit are dropped. -/
def Significand.withFraction (s : Significand) (ds : Bytes) : Significand :=
  let (n, dropped) := gather s.digits ds
  ⟨n, s.power - (ds.length - dropped.length : Nat)⟩

/-- Scale `x` by a power of ten, first in steps of `10 ^ 308` and then at once. -/
def scale (x : Decimal.Double) (e : Int) : Except JsonError Decimal.Double :=
  if x.mantissa = 0 then .ok x
  else if 308 < e then .error .numberOutOfRange
  else if 0 ≤ e then
    match (Decimal.Double.ofNat? (Decimal.pow10 e)).bind (fun p => x.mul? p) with
    | none => .error .numberOutOfRange
    | some y => .ok y
  else
    let step := min (-e).toNat 308
    match (Decimal.Double.ofNat? (Decimal.pow10 step)).bind (fun p => x.div? p) with
    | none => .error .numberOutOfRange
    | some y => if e + step < 0 then scale y (e + step) else .ok y
termination_by (-e).toNat
decreasing_by omega

/-- The number of double precision with the given significand and decimal exponent. -/
def Significand.toDouble (s : Significand) (e : Int) : Except JsonError Decimal.Double :=
  match Decimal.Double.ofNat? s.digits with
  | none => .error .numberOutOfRange
  | some x => scale x (s.power + e)

/-- The largest exponent that is read; larger ones are as good as infinite. -/
def greatestExponent : Nat := Int32.size / 2 - 1

/-- The sign of an exponent, if it has one, and the rest. -/
def readSign : Bytes → Bool × Bytes
  | [] => (false, [])
  | b :: bs =>
    if b = byte '+' then (false, bs) else if b = byte '-' then (true, bs) else (false, b :: bs)

theorem readSign_length (bs : Bytes) : (readSign bs).2.length ≤ bs.length := by
  unfold readSign
  split
  · simp
  · split
    · simp
    · split <;> simp

/-- The value of a run of digits. -/
def digitsValue (ds : Bytes) : Nat := ds.foldl (fun n d => 10 * n + digitValue d) 0

/-- Read the exponent of a number from after its `e`. -/
def readExponent (s : Significand) (bs : Bytes) : Except JsonError (Decimal.Double × Bytes) :=
  match (readSign bs).2 with
  | [] => .error (.endOfDocument .value)
  | b :: ds =>
    if isDigit b then
      let e := digitsValue (spanDigits (b :: ds)).1
      let rest := (spanDigits (b :: ds)).2
      if greatestExponent < e then
        if s.digits ≠ 0 ∧ (readSign bs).1 = false then .error .numberOutOfRange
        else .ok (⟨0, Decimal.Double.leastExponent⟩, rest)
      else (s.toDouble (if (readSign bs).1 then -e else e)).map (fun x => (x, rest))
    else .error .invalidNumber

theorem readExponent_length {s : Significand} {x : Decimal.Double} {bs rest : Bytes}
    (h : readExponent s bs = .ok (x, rest)) : rest.length ≤ bs.length := by
  have h1 := readSign_length bs
  unfold readExponent at h
  split at h
  · simp at h
  · next b ds hb =>
    have h2 := spanDigits_length (b :: ds)
    rw [hb] at h1
    split at h
    · dsimp only at h
      split at h
      · split at h
        · simp at h
        · simp only [Except.ok.injEq, Prod.mk.injEq] at h
          rw [← h.2]; omega
      · obtain ⟨y, _, hy⟩ := map_eq_ok h
        simp only [Prod.mk.injEq] at hy
        rw [← hy.2]; omega
    · simp at h

/-- Whether a byte starts an exponent. -/
def startsExponent (b : UInt8) : Bool := b = byte 'e' || b = byte 'E'

/-- Read what follows a number's significand: an exponent or nothing. -/
def readScale (s : Significand) : Bytes → Except JsonError (Decimal.Double × Bytes)
  | [] => (s.toDouble 0).map (fun x => (x, []))
  | b :: bs =>
    if startsExponent b then readExponent s bs
    else (s.toDouble 0).map (fun x => (x, b :: bs))

theorem readScale_length {s : Significand} {x : Decimal.Double} {bs rest : Bytes}
    (h : readScale s bs = .ok (x, rest)) : rest.length ≤ bs.length := by
  unfold readScale at h
  split at h
  · obtain ⟨y, _, hy⟩ := map_eq_ok h
    simp only [Prod.mk.injEq] at hy
    simp [← hy.2]
  · split at h
    · have := readExponent_length h
      rw [List.length_cons]; omega
    · obtain ⟨y, _, hy⟩ := map_eq_ok h
      simp only [Prod.mk.injEq] at hy
      simp [← hy.2]

/-- Read the digits after the point of a number, and its exponent. -/
def readFraction (s : Significand) (bs : Bytes) : Except JsonError (Decimal.Double × Bytes) :=
  if (spanDigits bs).1 = [] then
    if bs = [] then .error (.endOfDocument .value) else .error .invalidNumber
  else readScale (s.withFraction (spanDigits bs).1) (spanDigits bs).2

theorem readFraction_length {s : Significand} {x : Decimal.Double} {bs rest : Bytes}
    (h : readFraction s bs = .ok (x, rest)) : rest.length ≤ bs.length := by
  have h1 := spanDigits_length bs
  unfold readFraction at h
  split at h
  · split at h <;> simp at h
  · have := readScale_length h
    omega

/-- A whole number with its sign, if it is one of 64 bits; `-0` is a float. -/
def wholeNumber (negative : Bool) (n : Nat) : Number :=
  if negative then
    if n = 0 ∨ Int64.size / 2 < n then
      .float ⟨true, (Decimal.Double.ofNat? n).getD ⟨0, Decimal.Double.leastExponent⟩⟩
    else .whole (-n)
  else .whole n

/-- Read what follows the digits before the point of a number: a fraction, an exponent, or
nothing if those digits make a whole number of 64 bits. -/
def readRest (negative : Bool) (s : Significand) (bs : Bytes) : Except JsonError (Number × Bytes) :=
  let float := fun (p : Decimal.Double × Bytes) => (Number.float ⟨negative, p.1⟩, p.2)
  match bs with
  | [] =>
    if s.power = 0 then .ok (wholeNumber negative s.digits, [])
    else (readScale s []).map float
  | b :: rest =>
    if b = byte '.' then (readFraction s rest).map float
    else if startsExponent b then (readExponent s rest).map float
    else if s.power = 0 then .ok (wholeNumber negative s.digits, b :: rest)
    else (readScale s (b :: rest)).map float

theorem readRest_length {negative : Bool} {s : Significand} {n : Number} {bs rest : Bytes}
    (h : readRest negative s bs = .ok (n, rest)) : rest.length ≤ bs.length := by
  have hm : ∀ {y : Except JsonError (Decimal.Double × Bytes)} {k : Nat},
      (∀ x r, y = .ok (x, r) → r.length ≤ k) →
      y.map (fun p => (Number.float ⟨negative, p.1⟩, p.2)) = .ok (n, rest) →
      rest.length ≤ k := by
    intro y k hy h
    obtain ⟨⟨x, r⟩, hx, he⟩ := map_eq_ok h
    simp only [Prod.mk.injEq] at he
    rw [← he.2]
    exact hy x r hx
  unfold readRest at h
  split at h
  · split at h
    · simp only [Except.ok.injEq, Prod.mk.injEq] at h
      simp [← h.2]
    · exact hm (fun _ _ => readScale_length) h
  · split at h
    · have := hm (fun _ _ => readFraction_length) h
      rw [List.length_cons]; omega
    · split at h
      · have := hm (fun _ _ => readExponent_length) h
        rw [List.length_cons]; omega
      · split at h
        · simp only [Except.ok.injEq, Prod.mk.injEq] at h
          simp [← h.2]
        · exact hm (fun _ _ => readScale_length) h

/-- Read a number whose sign, if any, has been read. -/
def readNumber (negative : Bool) (bs : Bytes) : Except JsonError (Number × Bytes) :=
  match readWhole bs with
  | .error e => .error e
  | .ok (ds, rest) => readRest negative (.ofWhole ds) rest

theorem readNumber_length {negative : Bool} {n : Number} {bs rest : Bytes}
    (h : readNumber negative bs = .ok (n, rest)) : rest.length < bs.length := by
  unfold readNumber at h
  split at h
  · simp at h
  · next hw =>
    have h1 := readWhole_length hw
    have h2 := readRest_length h
    omega

/-- Skip an exponent from after its `e`. -/
def skipExponent (bs : Bytes) : Except JsonError Bytes :=
  match (readSign bs).2 with
  | [] => .error .invalidNumber
  | b :: rest => if isDigit b then .ok (spanDigits rest).2 else .error .invalidNumber

/-- Skip an exponent, if there is one. -/
def skipScale : Bytes → Except JsonError Bytes
  | [] => .ok []
  | b :: bs => if startsExponent b then skipExponent bs else .ok (b :: bs)

/-- Skip a number whose sign, if any, has been skipped. -/
def skipNumber (bs : Bytes) : Except JsonError Bytes :=
  match readWhole bs with
  | .error _ => .error .invalidNumber
  | .ok (_, rest) =>
    match rest with
    | [] => .ok []
    | b :: bs =>
      if b = byte '.' then
        match spanDigits bs with
        | ([], _) => .error .invalidNumber
        | (_, rest) => skipScale rest
      else skipScale (b :: bs)

theorem skipExponent_length {bs rest : Bytes} (h : skipExponent bs = .ok rest) :
    rest.length ≤ bs.length := by
  have hs := readSign_length bs
  unfold skipExponent at h
  split at h
  · simp at h
  · next r hr =>
    split at h
    · simp only [Except.ok.injEq] at h
      have hd := spanDigits_length r
      simp only [hr, List.length_cons] at hs
      rw [← h]
      omega
    · simp at h

theorem skipScale_length {bs rest : Bytes} (h : skipScale bs = .ok rest) :
    rest.length ≤ bs.length := by
  unfold skipScale at h
  split at h
  · simp only [Except.ok.injEq] at h
    simp [← h]
  · split at h
    · have := skipExponent_length h
      rw [List.length_cons]; omega
    · simp only [Except.ok.injEq] at h
      simp [← h]

theorem skipNumber_length {bs rest : Bytes} (h : skipNumber bs = .ok rest) :
    rest.length < bs.length := by
  unfold skipNumber at h
  split at h
  · simp at h
  · next hw =>
    have hl := readWhole_length hw
    split at h
    · simp only [Except.ok.injEq] at h
      rw [← h]
      simp only [List.length_nil] at hl ⊢
      omega
    · next b r =>
      simp only [List.length_cons] at hl
      split at h
      · split at h
        · simp at h
        · next hs =>
          have h1 := skipScale_length h
          have h2 := spanDigits_length r
          rw [hs] at h2
          simp only at h2
          omega
      · have h1 := skipScale_length h
        simp only [List.length_cons] at h1
        omega

end EventPipeline.Json
