import EventPipeline.Json.Event
import EventPipeline.Protobuf.Event
import EventPipeline.Text.Blank
import EventPipeline.Text.Case
/-!
# Decoders

A payload is turned into an event by one of two decoders, chosen by name. A name
counts without blanks around it and in any letter case. An empty payload holds no
event in either format. See the specification, 4.7.
-/
namespace EventPipeline

/-- Why a payload gives no event, or a name no decoder. -/
inductive DecodeError
  | empty
  | protobuf (cause : Protobuf.Malformed)
  | json (cause : Json.JsonError)
  | unknownDecoder (name : String)
deriving DecidableEq

/-- The wording of a decode error. -/
def DecodeError.message : DecodeError → String
  | .empty => "received empty payload"
  | .protobuf cause => "invalid protobuf payload: " ++ cause.message
  | .json cause => "invalid json payload: " ++ cause.message
  | .unknownDecoder name => "unknown event decoder: " ++ name

/-- The format of payloads. -/
inductive Decoder
  | protobuf | json
deriving DecidableEq

namespace Decoder

/-- The decoder with the given name. -/
def ofName? (name : String) : Except DecodeError Decoder :=
  let key := String.ofList (Text.lowercase (Text.trim name.toList))
  if key = "protobuf" ∨ key = "proto" then .ok .protobuf
  else if key = "json" then .ok .json
  else .error (.unknownDecoder name)

/-- The event that a payload holds. -/
def decode (d : Decoder) (payload : Bytes) : Except DecodeError Event :=
  if payload = [] then .error .empty
  else
    match d with
    | .protobuf => (Protobuf.decode payload).mapError .protobuf
    | .json => (Json.decode payload).mapError .json

end Decoder

end EventPipeline
