import EventPipeline.Calendar.Pattern.Text
import EventPipeline.Json.Text
import EventPipeline.Text.Case
import EventPipeline.Text.Split
/-!
# Fields

A field is what one column of a row shows of an event: a member, one of the
properties, or a date or time derived from a member that counts milliseconds.
Fields are named without regard to letter case, `_` and `-`; a property is named
after the member that holds it, a dot, and its own name as it stands. See the
specification, 4.4.
-/
namespace EventPipeline

/-- A text derived from a member that holds milliseconds since the epoch. -/
inductive Derived
  | eventTime | loggedTime | loggedDate
deriving DecidableEq

/-- What a column shows. -/
inductive Field
  | member (m : Member)
  | derived (d : Derived)
  | property (name : String)
deriving DecidableEq

namespace Derived

/-- The milliseconds a text is derived from. -/
def milliseconds (e : Event) : Derived → Int64
  | .eventTime => e.value .eventTime
  | .loggedTime | .loggedDate => e.value .loggedTime

/-- `%Y-%m-%dT%H:%M:%S`, or `%Y%m%d` for a date alone. -/
def pattern : Derived → Calendar.Pattern
  | .eventTime | .loggedTime =>
    Calendar.Pattern.dashedDate ++ .literal 'T' :: Calendar.Pattern.time
  | .loggedDate =>
    [Calendar.Pattern.zeros .year, Calendar.Pattern.zeros .month, Calendar.Pattern.zeros .day]

/-- The text: that of the whole seconds, with the milliseconds cut off towards the epoch, and
none for a time that the calendar does not cover. -/
def chars (e : Event) (d : Derived) : List Char :=
  let moment := Calendar.Moment.ofSeconds ((d.milliseconds e).toInt.tdiv 1000)
  if moment.Covered then (d.pattern.chars? moment).getD [] else []

end Derived

namespace Field

/-- A field's name as it is compared: lowercase, without `_` and `-`. -/
def key (name : List Char) : List Char :=
  Text.lowercase (name.filter (fun c => c ≠ '_' && c ≠ '-'))

/-- The fields other than properties, each with its name as it is compared. -/
def table : List (String × Field) :=
  [("actiontype", .member .actionType), ("androidid", .member .androidId),
   ("appchannel", .member .appChannel), ("apptype", .member .appType),
   ("appversion", .member .appVersion), ("carrier", .member .carrier),
   ("devicebrand", .member .deviceBrand), ("devicemodel", .member .deviceModel),
   ("devicevendor", .member .deviceVendor), ("duration", .member .duration), ("env", .member .env),
   ("event", .member .event), ("eventid", .member .eventId), ("eventtime", .member .eventTime),
   ("eventtimestr", .derived .eventTime), ("extendinfo", .member .extendInfo),
   ("idfa", .member .idfa), ("imei", .member .imei), ("ip", .member .ip),
   ("ipcity", .member .ipCity), ("ipcountry", .member .ipCountry),
   ("ipprovince", .member .ipProvince), ("lat", .member .lat), ("layoutid", .member .layoutId),
   ("loggeddate", .derived .loggedDate), ("loggedtime", .member .loggedTime),
   ("loggedtimestr", .derived .loggedTime), ("lon", .member .lon), ("mac", .member .mac),
   ("mid", .member .mid), ("moduleid", .member .moduleId), ("network", .member .network),
   ("oaid", .member .oaid), ("os", .member .os), ("osversion", .member .osVersion),
   ("pageid", .member .pageId), ("pagekey", .member .pageKey), ("platform", .member .platform),
   ("pvid", .member .pvId), ("referer", .member .referer), ("reflayoutid", .member .refLayoutId),
   ("refmoduleid", .member .refModuleId), ("refpageid", .member .refPageId),
   ("refpagekey", .member .refPageKey), ("refpvid", .member .refPvId),
   ("screenheight", .member .screenHeight), ("screenresolution", .member .screenResolution),
   ("screensize", .member .screenSize), ("screenwidth", .member .screenWidth),
   ("sessionid", .member .sessionId), ("tkid", .member .tkid), ("udid", .member .udid),
   ("useragent", .member .userAgent)]

/-- The field with a name that has no dot. -/
def ofPlainName? (name : List Char) : Option Field :=
  (table.find? (fun row => row.1.toList = key name)).map (fun row => row.2)

/-- The field with the given name. A name with a dot is that of a property, or of all of them
if nothing follows the dot. -/
def ofName? (name : String) : Option Field :=
  match Text.splitOnce '.' name.toList with
  | (plain, none) => ofPlainName? plain
  | (owner, some rest) =>
    if '.' ∈ rest then none
    else if key owner ≠ "extendinfo".toList then none
    else if rest = [] then some (.member .extendInfo)
    else some (.property (String.ofList rest))

/-- A value as it stands in a column: a text itself, a number in base 10, properties as JSON. -/
def plainChars : (k : Kind) → k.Value → List Char
  | .text, s => s.toList
  | .int32, i => Decimal.intChars i.toInt
  | .int64, i => Decimal.intChars i.toInt
  | .properties, d => Json.properties d

/-- What the field shows of an event. -/
def chars (e : Event) : Field → List Char
  | .member m => plainChars m.kind (e.value m)
  | .derived d => d.chars e
  | .property name => ((e.properties.find? name).getD "").toList

end Field

end EventPipeline
