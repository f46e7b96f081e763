/-!
# Bracket expressions

Between `[` and `]` stand the characters to match, one by one, in ranges, or by
the name of a class. Right after the opening (and a `^`) a closing bracket is a
character; a hyphen is one there, as the end of a range, and in front of the
closing bracket. Characters are ordered by their codes.
-/
namespace EventPipeline.Regex

/-- The names of the classes of characters. -/
def classNames : List String :=
  ["alnum", "alpha", "blank", "cntrl", "digit", "graph", "lower", "print", "punct", "space",
   "upper", "xdigit"]

/-- What one element stands for: a character, which may begin or end a range, or several. -/
inductive Element
  | char (c : Char)
  | set
deriving DecidableEq

/-- A name that ends with `mark` and a closing bracket, and the rest. -/
def readName (mark : Char) : List Char → Option (List Char × List Char)
  | [] => none
  | [_] => none
  | c :: d :: rest =>
    if c = mark ∧ d = ']' then some ([], rest)
    else (readName mark (d :: rest)).map (fun (name, rest) => (c :: name, rest))

/-- Read an element; `hyphen` says whether a hyphen may be one although more follows. -/
def readElement (hyphen : Bool) : List Char → Option (Element × List Char)
  | [] => none
  | '[' :: ':' :: rest =>
    match readName ':' rest with
    | some (name, rest) => if String.ofList name ∈ classNames then some (.set, rest) else none
    | none => none
  | '[' :: '=' :: rest =>
    match readName '=' rest with
    | some ([_], rest) => some (.set, rest)
    | _ => none
  | '[' :: '.' :: rest =>
    match readName '.' rest with
    | some ([c], rest) => some (.char c, rest)
    | _ => none
  | '-' :: rest => if hyphen ∨ rest.head? = some ']' then some (.char '-', rest) else none
  | c :: rest => some (.char c, rest)

/-- Read the other end of the range that begins with an element, if it begins one. -/
def readRangeEnd : Element → List Char → Option (List Char)
  | .char _, '-' :: ']' :: rest => some ('-' :: ']' :: rest)
  | .char c, '-' :: rest =>
    match readElement true rest with
    | some (.char d, rest) => if c ≤ d then some rest else none
    | _ => none
  | _, rest => some rest

/-- Read at most `limit` elements and the closing bracket. -/
def readElements : Nat → Bool → List Char → Option (List Char)
  | 0, _, _ => none
  | limit + 1, first, cs =>
    match (readElement first cs).bind (fun (e, rest) => readRangeEnd e rest) with
    | none => none
    | some [] => none
    | some (']' :: rest) => some rest
    | some rest => readElements limit false rest

/-- Read a bracket expression whose opening bracket has been read. -/
def readBracket (cs : List Char) : Option (List Char) :=
  match cs with
  | '^' :: rest => readElements cs.length true rest
  | _ => readElements cs.length true cs

end EventPipeline.Regex
