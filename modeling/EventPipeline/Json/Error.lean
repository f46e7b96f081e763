import EventPipeline.Decimal.Shortest
import EventPipeline.Event.Member
import EventPipeline.Text.Quoted
/-!
# What can be wrong with a JSON document

A document is broken off, not well formed, or well formed with a value that does
not fit. `JsonError.category` tells the three apart.
-/
namespace EventPipeline.Json

/-- What a document is broken off in. -/
inductive Part
  | list | object | text | value
deriving DecidableEq

/-- What a place in a document calls for. -/
inductive Expected
  | text | int32 | int64 | properties | event
deriving DecidableEq

/-- What stands there instead. -/
inductive Found
  | null
  | boolean (b : Bool)
  | integer (i : Int)
  | float (x : Decimal.Signed)
  | text (s : String)
  | list
  | object
deriving DecidableEq

/-- Why a document is refused. -/
inductive JsonError
  | endOfDocument (within : Part)
  | expectedColon
  | expectedListCommaOrEnd
  | expectedObjectCommaOrEnd
  | expectedIdent
  | expectedValue
  | invalidEscape
  | invalidNumber
  | numberOutOfRange
  | invalidCodePoint
  | controlCharacter
  | keyMustBeText
  | loneSurrogate
  | endOfHexEscape
  | trailingComma
  | trailingCharacters
  | wrongType (found : Found) (expected : Expected)
  | wrongValue (found : Int) (expected : Expected)
  | duplicate (member : Member)
deriving DecidableEq

/-- Broken off, not well formed, or not fitting. -/
inductive Category
  | endOfDocument | form | content
deriving DecidableEq

/-- The category of an error. -/
def JsonError.category : JsonError → Category
  | .endOfDocument _ => .endOfDocument
  | .wrongType _ _ | .wrongValue _ _ | .duplicate _ => .content
  | _ => .form

/-- The name of a part in messages. -/
def Part.name : Part → String
  | .list => "a list"
  | .object => "an object"
  | .text => "a string"
  | .value => "a value"

/-- The name of what is called for, in messages. -/
def Expected.name : Expected → String
  | .text => "a string"
  | .int32 => "i32"
  | .int64 => "i64"
  | .properties => "a map"
  | .event => "struct EventLog"

/-- What was found, in messages. -/
def Found.description : Found → String
  | .null => "null"
  | .boolean true => "boolean `true`"
  | .boolean false => "boolean `false`"
  | .integer i => "integer `" ++ Decimal.int i ++ "`"
  | .float x => "floating point `" ++ x.text ++ "`"
  | .text s => "string " ++ Text.quoted s
  | .list => "sequence"
  | .object => "map"

/-- The wording of an error. -/
def JsonError.message : JsonError → String
  | .endOfDocument part => "EOF while parsing " ++ part.name
  | .expectedColon => "expected `:`"
  | .expectedListCommaOrEnd => "expected `,` or `]`"
  | .expectedObjectCommaOrEnd => "expected `,` or `\x7d`"
  | .expectedIdent => "expected ident"
  | .expectedValue => "expected value"
  | .invalidEscape => "invalid escape"
  | .invalidNumber => "invalid number"
  | .numberOutOfRange => "number out of range"
  | .invalidCodePoint => "invalid unicode code point"
  | .controlCharacter => "control character (\\u0000-\\u001F) found while parsing a string"
  | .keyMustBeText => "key must be a string"
  | .loneSurrogate => "lone leading surrogate in hex escape"
  | .endOfHexEscape => "unexpected end of hex escape"
  | .trailingComma => "trailing comma"
  | .trailingCharacters => "trailing characters"
  | .wrongType found expected =>
    "invalid type: " ++ found.description ++ ", expected " ++ expected.name
  | .wrongValue found expected =>
    "invalid value: integer `" ++ Decimal.int found ++ "`, expected " ++ expected.name
  | .duplicate member => "duplicate field `" ++ member.name ++ "`"

end EventPipeline.Json
