import EventPipeline.Bytes
import EventPipeline.Csv
import EventPipeline.Field
/-!
# Marshalers

A marshaler turns an event into one record of the output, which ends with a line
feed: a JSON object, or a row of chosen columns without a header. The columns are
resolved when the marshaler is made, so that afterwards no event is refused. See
the specification, 4.4 and 4.5.
-/
namespace EventPipeline

/-- Why there is no marshaler, or no record. -/
inductive MarshalError
  | unknownMarshaler (name : String)
  | unknownField (name : String)
  | noFields
  | json (reason : String)
  | csv (reason : String)
deriving DecidableEq

/-- The wording of a marshal error. -/
def MarshalError.message : MarshalError → String
  | .unknownMarshaler name => "unknown marshaler: " ++ name
  | .unknownField name => "unknown field: " ++ name
  | .noFields => "marshaler needs at least one field"
  | .json reason => "json encoding failed: " ++ reason
  | .csv reason => "csv encoding failed: " ++ reason

/-- A format of records. -/
inductive Marshaler
  | json
  | csv (columns : List Field)
deriving DecidableEq

namespace Marshaler

/-- The columns with the given names, or the first name that is not a field's. -/
def columns : List String → Except MarshalError (List Field)
  | [] => .ok []
  | name :: names =>
    match Field.ofName? name with
    | none => .error (.unknownField name)
    | some f => (f :: ·) <$> columns names

/-- The marshaler of rows with the given columns, of which there has to be one. -/
def ofHeaders (headers : List String) : Except MarshalError Marshaler :=
  if headers = [] then .error .noFields else .csv <$> columns headers

/-- The marshaler with the given name. Rows take their columns from the comma separated
arguments. -/
def ofName? (name args : String) : Except MarshalError Marshaler :=
  if name = "json" then .ok .json
  else if name = "csv" then ofHeaders (Text.listed args)
  else .error (.unknownMarshaler name)

/-- The text of an event's record. -/
def chars (m : Marshaler) (e : Event) : List Char :=
  match m with
  | .json => Json.event e ++ ['\n']
  | .csv columns => Csv.row (columns.map (Field.chars e))

/-- The record of an event. -/
def record (m : Marshaler) (e : Event) : Bytes := Bytes.ofText (String.ofList (m.chars e))

end Marshaler

end EventPipeline
