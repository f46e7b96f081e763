import EventPipeline.Regex.Basic
import EventPipeline.Settings.Broker
/-!
# What the broker client accepts

The broker client checks its configuration when it is made: no property may hold a
NUL, an interval has an upper bound, some broker versions are too old to tell what
they support, and without a group there is nothing to consume from. It checks the
topics when it subscribes to them. These are checks of the client itself, which
decide which settings make a consumer; no result rests on what they say.
-/
namespace EventPipeline.Settings

/-- The longest interval between commits, in milliseconds. -/
def maxCommitInterval : Nat := 86400000

/-- A number as the client reads it: in 32 bits with a sign. -/
def clientNumber (n : Nat) : Int := Int.bmod n UInt32.size

/-- Versions of brokers that cannot be fallen back on begin with one of these. -/
def unsupportedVersions : List String := ["0.6.", "0.7."]

/-- White space in the sense of ASCII. -/
def isAsciiBlank (c : Char) : Bool := c = ' ' || ('\t' ≤ c && c ≤ '\r')

/-- A text as the client reads it: without white space in front. -/
def clientText (s : String) : String := String.ofList (s.toList.dropWhile isAsciiBlank)

/-- Whether a text holds a NUL, which ends a text for the client. -/
def holdsNul (s : String) : Bool := s.toList.contains '\x00'

/-- The client's answer to a property's value that holds a NUL. -/
def nulRefusal? (value : String) : Option String :=
  if holdsNul value then some "FFI nul error" else none

/-- How many bytes of a description the client has room for. -/
def descriptionSize : Nat := 511

/-- What fits into `room` bytes. A character that is cut in two shows as one replaced. -/
def clipped : Nat → List Char → List Char
  | _, [] => []
  | room, c :: cs =>
    if c.utf8Size ≤ room then c :: clipped (room - c.utf8Size) cs
    else if room = 0 then []
    else ['\uFFFD']

/-- Why the client does not take a setting. -/
def settingRefused (description name value : String) : String :=
  "Client config error: " ++ String.ofList (clipped descriptionSize description.toList) ++ " " ++
    name ++ " " ++ value

/-- The client's answer to an interval between commits. -/
def intervalRefusal? (milliseconds : Nat) : Option String :=
  let read := clientNumber milliseconds
  if 0 ≤ read ∧ read ≤ maxCommitInterval then none
  else
    let name := "auto.commit.interval.ms"
    let description := "Configuration property \"" ++ name ++ "\" value " ++ Decimal.int read ++
      " is outside allowed range 0.." ++ Decimal.nat maxCommitInterval ++ "\n"
    some (settingRefused description name (Decimal.nat milliseconds))

/-- The client's answer to a broker version. -/
def versionRefusal? (version : String) : Option String :=
  let read := clientText version
  if version ≠ "" ∧ unsupportedVersions.all (fun v => !v.toList.isPrefixOf read.toList) then none
  else
    let name := "broker.version.fallback"
    let shown := if version = "" then "(null)" else read
    let description := "Invalid value for configuration property \"" ++ name ++ "\": " ++ shown
    some (settingRefused description name version)

/-- The client's answer to a group name. -/
def groupRefusal? (group : String) : Option String :=
  if clientText group = "" then
    some "Client creation error: rdkafka consumer queue not available"
  else none

/-- Whether the client takes a topic: one that begins with `^` has to be a regular expression. -/
def isTopic (topic : String) : Bool := topic.toList.head? ≠ some '^' || Regex.isRegex topic

/-- The client's answer to a subscription: no topic may be named twice. -/
def subscriptionRefusal? (topics : List String) : Option String :=
  if topics.all isTopic ∧ topics.Nodup then none
  else some "Subscription error: Local: Invalid argument or configuration"

/-- Why the client cannot be made, if it cannot. -/
def clientRefusal? (b : Broker) (m : Membership) : Option String :=
  ((b.hostList ++ b.version.toList ++ [m.group]).findSome? nulRefusal?).or
    ((intervalRefusal? m.autoCommitMilliseconds).or
      ((b.version.bind versionRefusal?).or (groupRefusal? m.group)))

end EventPipeline.Settings
