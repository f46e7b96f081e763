import EventPipeline.Text.Blank
/-!
# Rows of comma separated fields

A row ends with a line feed. A field that would be misread as it stands is put
between quotes, with every quote inside it doubled. See the specification, 4.4
and 6.
-/
namespace EventPipeline.Csv

/-- Whether a field has to stand between quotes: it holds a separator, a quote or a line break,
starts with a blank, or is the end-of-data mark `\.`. -/
def needsQuotes (field : List Char) : Bool :=
  field = ['\\', '.'] ||
    field.any (fun c => c = ',' || c = '"' || c = '\r' || c = '\n') ||
    field.head?.any Text.isBlank

/-- A text with every quote doubled. -/
def doubled : List Char → List Char
  | [] => []
  | c :: rest => if c = '"' then '"' :: '"' :: doubled rest else c :: doubled rest

/-- A field as it stands in a row. -/
def field (value : List Char) : List Char :=
  if needsQuotes value then '"' :: doubled value ++ ['"'] else value

/-- The row of some fields. -/
def row : List (List Char) → List Char
  | [] => ['\n']
  | [value] => field value ++ ['\n']
  | value :: more => field value ++ ',' :: row more

end EventPipeline.Csv
