import EventPipeline.Event.Basic
import EventPipeline.Decimal.Digits
/-!
# The grammar of JSON texts

Which texts are well formed, and which of them stand for a given value. A string may be written in
many ways: each character as it is, with a letter, or with its number (`CharSpelled`); white space
may stand between any two tokens (`Blank`, `Gaps`). `Derives` has the values of no interest, nested
as deep as they like, with strings that need not even stand for a text; `Valued` has the texts
that stand for the value of a member.
-/
namespace EventPipeline.Json

/-! ## White space -/

/-- White space between tokens. -/
structure Blank where
  chars : List Char
  blank : ∀ c ∈ chars, c ∈ [' ', '\n', '\t', '\r']

/-- No white space. -/
def Blank.empty : Blank := ⟨[], fun _ h => absurd h List.not_mem_nil⟩

/-! ## Strings -/

/-- A character is the hexadecimal digit `d`, small or capital. -/
def HexDigit (d : Nat) (c : Char) : Prop :=
  "0123456789abcdef".toList[d]? = some c ∨ "0123456789ABCDEF".toList[d]? = some c

instance (d : Nat) (c : Char) : Decidable (HexDigit d c) := inferInstanceAs (Decidable (_ ∨ _))

/-- Four characters are the hexadecimal digits of a number. -/
inductive FourHex : Nat → List Char → Prop
  | digits {d₁ d₂ d₃ d₄ : Nat} {c₁ c₂ c₃ c₄ : Char} (h₁ : HexDigit d₁ c₁) (h₂ : HexDigit d₂ c₂)
      (h₃ : HexDigit d₃ c₃) (h₄ : HexDigit d₄ c₄) :
      FourHex (4096 * d₁ + 256 * d₂ + 16 * d₃ + d₄) [c₁, c₂, c₃, c₄]

/-- The characters that a backslash and a letter stand for, each with its letter. -/
def letterEscapes : List (Char × Char) :=
  [('"', '"'), ('\\', '\\'), ('/', '/'), ('\x08', 'b'), ('\x0c', 'f'), ('\n', 'n'), ('\r', 'r'),
   ('\t', 't')]

/-- A character that may stand in a string as it is. -/
def Plain (c : Char) : Prop := 0x20 ≤ c.toNat ∧ c ≠ '"' ∧ c ≠ '\\'

instance (c : Char) : Decidable (Plain c) := inferInstanceAs (Decidable (_ ∧ _))

/-- A character as it may be written in a string: as it is, with a letter, or with its number in
UTF-16, which is a pair of surrogates above the first 65536 characters. -/
inductive CharSpelled (c : Char) : List Char → Prop
  | plain (h : Plain c) : CharSpelled c [c]
  | letter {l : Char} (h : (c, l) ∈ letterEscapes) : CharSpelled c ['\\', l]
  | number {ds : List Char} (h : FourHex c.toNat ds) : CharSpelled c ('\\' :: 'u' :: ds)
  | surrogates {m n : Nat} {ds es : List Char} (hm : FourHex m ds) (hn : FourHex n es)
      (hleading : 0xD800 ≤ m ∧ m < 0xDC00) (htrailing : 0xDC00 ≤ n ∧ n < 0xE000)
      (hc : c.toNat = 0x10000 + 0x400 * (m - 0xD800) + (n - 0xDC00)) :
      CharSpelled c ('\\' :: 'u' :: ds ++ '\\' :: 'u' :: es)

/-- A text as it may be written between the quotes of a string. -/
inductive Spelled : List Char → List Char → Prop
  | nil : Spelled [] []
  | cons {c : Char} {cs raw raws : List Char} (h : CharSpelled c raw) (hs : Spelled cs raws) :
      Spelled (c :: cs) (raw ++ raws)

/-- A text of characters that may all stand as they are is a spelling of itself. -/
theorem Spelled.self {cs : List Char} (h : ∀ c ∈ cs, Plain c) : Spelled cs cs := by
  induction cs with
  | nil => exact .nil
  | cons c cs ih =>
    obtain ⟨hc, hcs⟩ := List.forall_mem_cons.1 h
    exact .cons (.plain hc) (ih hcs)

/-- A part of a string that is well formed by itself. -/
inductive Piece : List Char → Prop
  | plain {c : Char} (h : Plain c) : Piece [c]
  | letter {c l : Char} (h : (c, l) ∈ letterEscapes) : Piece ['\\', l]
  | number {n : Nat} {ds : List Char} (h : FourHex n ds) : Piece ('\\' :: 'u' :: ds)

/-- What may stand between the quotes of a string, whether or not it stands for a text: surrogates
need not come in pairs. -/
inductive Content : List Char → Prop
  | nil : Content []
  | cons {cs ds : List Char} (h : Piece cs) (hs : Content ds) : Content (cs ++ ds)

theorem Content.append {cs ds : List Char} (h : Content cs) (h' : Content ds) :
    Content (cs ++ ds) := by
  induction h with
  | nil => exact h'
  | cons h hs ih =>
    rw [List.append_assoc]
    exact .cons h ih

/-- What stands for a text is well formed. -/
theorem Spelled.content {cs raw : List Char} (h : Spelled cs raw) : Content raw := by
  have hpiece : ∀ {cs : List Char}, Piece cs → Content cs := by
    intro cs h
    have hcontent := Content.cons h .nil
    rwa [List.append_nil] at hcontent
  induction h with
  | nil => exact .nil
  | cons h hs ih =>
    refine Content.append ?_ ih
    cases h with
    | plain h => exact hpiece (.plain h)
    | letter h => exact hpiece (.letter h)
    | number h => exact hpiece (.number h)
    | surrogates hm hn => exact .append (hpiece (.number hm)) (hpiece (.number hn))

/-! ## Numbers -/

/-- The decimal digits. -/
def decimals : List Char := ['0', '1', '2', '3', '4', '5', '6', '7', '8', '9']

/-- The part of a number before the point: a zero, or digits that do not start with one. -/
inductive Whole : List Char → Prop
  | zero : Whole ['0']
  | digits {c : Char} {cs : List Char} (hc : c ∈ decimals) (hzero : c ≠ '0')
      (hcs : ∀ d ∈ cs, d ∈ decimals) : Whole (c :: cs)

/-- The part of a number from the point on, if it has one. -/
inductive Fraction : List Char → Prop
  | none : Fraction []
  | some {c : Char} {cs : List Char} (hcs : ∀ d ∈ c :: cs, d ∈ decimals) : Fraction ('.' :: c :: cs)

/-- The exponent of a number, if it has one. -/
inductive Exponent : List Char → Prop
  | none : Exponent []
  | some {e c : Char} {sign cs : List Char} (he : e = 'e' ∨ e = 'E')
      (hsign : sign = [] ∨ sign = ['+'] ∨ sign = ['-']) (hcs : ∀ d ∈ c :: cs, d ∈ decimals) :
      Exponent (e :: sign ++ c :: cs)

/-- A number, of any size. -/
inductive Numeral : List Char → Prop
  | parts {sign w f e : List Char} (hsign : sign = [] ∨ sign = ['-']) (hw : Whole w)
      (hf : Fraction f) (he : Exponent e) : Numeral (sign ++ (w ++ (f ++ e)))

/-! ## Values -/

/-- The white space within a member of an object. -/
structure Gaps where
  beforeKey : Blank
  afterKey : Blank
  beforeValue : Blank
  afterValue : Blank

/-- No white space. -/
def Gaps.empty : Gaps := ⟨.empty, .empty, .empty, .empty⟩

/-- What follows the key of a member. -/
def Gaps.behindKey (g : Gaps) (value : List Char) : List Char :=
  g.afterKey.chars ++ ':' :: (g.beforeValue.chars ++ (value ++ g.afterValue.chars))

/-- A member of an object: the string `key` and a value. -/
def Gaps.member (g : Gaps) (key value : List Char) : List Char :=
  g.beforeKey.chars ++ '"' :: (key ++ '"' :: g.behindKey value)

/-- What a text may be: a value, or one or more values or members with commas between them. -/
inductive Form
  | value | elements | members

/-- The texts of each form. -/
inductive Derives : Form → List Char → Prop
  | word {w : String} (h : w ∈ ["null", "true", "false"]) : Derives .value w.toList
  | number {cs : List Char} (h : Numeral cs) : Derives .value cs
  | string {cs : List Char} (h : Content cs) : Derives .value ('"' :: (cs ++ ['"']))
  | emptyList (b : Blank) : Derives .value ('[' :: (b.chars ++ [']']))
  | list {cs : List Char} (h : Derives .elements cs) : Derives .value ('[' :: (cs ++ [']']))
  | emptyObject (b : Blank) : Derives .value ('{' :: (b.chars ++ ['}']))
  | object {cs : List Char} (h : Derives .members cs) : Derives .value ('{' :: (cs ++ ['}']))
  | lastElement {cs : List Char} (b b' : Blank) (h : Derives .value cs) :
      Derives .elements (b.chars ++ (cs ++ b'.chars))
  | element {cs ds : List Char} (b b' : Blank) (h : Derives .value cs)
      (hs : Derives .elements ds) : Derives .elements (b.chars ++ (cs ++ (b'.chars ++ ',' :: ds)))
  | lastMember {key cs : List Char} (g : Gaps) (hkey : Content key) (h : Derives .value cs) :
      Derives .members (g.member key cs)
  | member {key cs ds : List Char} (g : Gaps) (hkey : Content key) (h : Derives .value cs)
      (hs : Derives .members ds) : Derives .members (g.member key cs ++ ',' :: ds)

/-! ## Documents -/

/-- One or more members of an object with commas between them. -/
inductive Listed {α : Type} (Written : α → List Char → Prop) : List α → List Char → Prop
  | last {x : α} {cs : List Char} (h : Written x cs) : Listed Written [x] cs
  | cons {x : α} {xs : List α} {cs ds : List Char} (h : Written x cs)
      (hs : Listed Written xs ds) : Listed Written (x :: xs) (cs ++ ',' :: ds)

/-- An object with the given members, each written in one of its ways. -/
inductive Object {α : Type} (Written : α → List Char → Prop) : List α → List Char → Prop
  | empty (b : Blank) : Object Written [] ('{' :: (b.chars ++ ['}']))
  | members {xs : List α} {cs : List Char} (h : Listed Written xs cs) :
      Object Written xs ('{' :: (cs ++ ['}']))

/-- An object with white space around it. -/
inductive Document {α : Type} (Written : α → List Char → Prop) : List α → List Char → Prop
  | object {xs : List α} {cs : List Char} (b b' : Blank) (h : Object Written xs cs) :
      Document Written xs (b.chars ++ (cs ++ b'.chars))

/-- An entry of an object of texts. -/
def EntryWritten (entry : String × String) (cs : List Char) : Prop :=
  ∃ (g : Gaps) (key value : List Char), Spelled entry.1.toList key ∧
    Spelled entry.2.toList value ∧ cs = g.member key ('"' :: (value ++ ['"']))

/-- The texts that stand for a value: any spelling of a text, a number in base 10, and an object
that has the properties in any order. -/
def Valued : (k : Kind) → k.Value → List Char → Prop
  | .text, s, cs => ∃ raw, Spelled s.toList raw ∧ cs = '"' :: (raw ++ ['"'])
  | .int32, i, cs => cs = Decimal.intChars i.toInt
  | .int64, i, cs => cs = Decimal.intChars i.toInt
  | .properties, d, cs => ∃ entries, entries.Perm d.entries ∧ Object EntryWritten entries cs

end EventPipeline.Json
