import EventPipeline.Regex.Bracket
/-!
# Tokens of regular expressions

A token matches one character, or none at a place of a certain kind (an anchor),
or what a group has matched before; or it repeats or joins others.
-/
namespace EventPipeline.Regex

/-- A token of a regular expression. -/
inductive Token
  | atom | anchor
  | reference (group : Nat)
  | opening | closing | alternation | repetition
deriving DecidableEq

/-- How often something may be repeated at most. -/
def maxRepetitions : Nat := 32767

/-- Read a count, after the digits that make `n`. A zero may be escaped. -/
def readCount (n : Option Nat) : List Char → Option Nat × List Char
  | '\\' :: '0' :: rest => readCount (some (10 * n.getD 0)) rest
  | c :: rest =>
    if '0' ≤ c ∧ c ≤ '9' then readCount (some (10 * n.getD 0 + (c.toNat - '0'.toNat))) rest
    else (n, c :: rest)
  | [] => (n, [])

/-- Read a comma, which may be escaped. -/
def readComma : List Char → Option (List Char)
  | ',' :: rest | '\\' :: ',' :: rest => some rest
  | _ => none

/-- Read the bounds of a repetition whose opening brace has been read: one count, or two with a
comma between them, either of which may be missing. -/
def readBounds (cs : List Char) : Option (List Char) :=
  match readCount none cs with
  | (some n, '\x7d' :: rest) => if n ≤ maxRepetitions then some rest else none
  | (low, rest) =>
    match (readComma rest).map (readCount none) with
    | some (none, '\x7d' :: rest) => if low.getD 0 ≤ maxRepetitions then some rest else none
    | some (some high, '\x7d' :: rest) =>
      if low.getD 0 ≤ high ∧ high ≤ maxRepetitions then some rest else none
    | _ => none

/-- The token that a character with a backslash in front is. -/
def escaped (c : Char) : Token :=
  if '1' ≤ c ∧ c ≤ '9' then .reference (c.toNat - '0'.toNat)
  else if c ∈ ['<', '>', 'b', 'B', '\x60', '\x27'] then .anchor
  else .atom

/-- Read the token at the start of a text. -/
def readToken : List Char → Option (Token × List Char)
  | [] => none
  | ['\\'] => none
  | '\\' :: c :: rest => some (escaped c, rest)
  | '[' :: rest => (readBracket rest).map (fun rest => (.atom, rest))
  | '\x7b' :: rest => (readBounds rest).map (fun rest => (.repetition, rest))
  | '(' :: rest => some (.opening, rest)
  | ')' :: rest => some (.closing, rest)
  | '|' :: rest => some (.alternation, rest)
  | c :: rest =>
    if c ∈ ['*', '+', '?'] then some (.repetition, rest)
    else if c ∈ ['^', '$'] then some (.anchor, rest)
    else some (.atom, rest)

/-- The tokens of a text, if it has at most `limit`. -/
def tokens? : Nat → List Char → Option (List Token)
  | _, [] => some []
  | 0, _ :: _ => none
  | limit + 1, cs =>
    match readToken cs with
    | none => none
    | some (t, rest) => (tokens? limit rest).map (t :: ·)

end EventPipeline.Regex
