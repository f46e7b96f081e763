/-!
# The metrics endpoint

Metrics are served at one path, to be read only. A request names its target by a
path or by a full address. The flush duration is published as a histogram with
fixed upper bounds. See the specification, 11. It belongs to the program and to
its tests; nothing is proved of it.
-/
namespace EventPipeline.Metrics

/-- The upper bounds of the buckets of the flush duration, in seconds. -/
def flushBuckets : List String :=
  ["0.0005", "0.001", "0.0025", "0.005", "0.01", "0.025", "0.05", "0.1", "0.25", "0.5", "1", "2.5",
   "+Inf"]

/-- An answer of the endpoint. The body is given by the buckets it lists. -/
structure Response where
  status : Nat
  contentType : Option String := none
  allow : Option String := none
  buckets : List String := []
deriving DecidableEq

/-- The path under which metrics are served. -/
def endpointPath : List Char := "/metrics".toList

/-- What follows the scheme of a full address, or nothing if there is none. -/
def afterScheme? : List Char → Option (List Char)
  | ':' :: '/' :: '/' :: rest => some rest
  | _ :: rest => afterScheme? rest
  | [] => none

/-- A path without the query or the fragment behind it. -/
def withoutQuery (path : List Char) : List Char := path.takeWhile (fun c => c ≠ '?' && c ≠ '#')

/-- The path of a request's target. A full address has it behind its host; a target that is
neither a path nor a full address has none. -/
def targetPath (target : List Char) : List Char :=
  if target.head? = some '/' then withoutQuery target
  else ((afterScheme? (withoutQuery target)).getD []).dropWhile (· ≠ '/')

/-- The answer to a request. -/
def respond (method target : String) : Response :=
  let plain := some "text/plain; charset=utf-8"
  if targetPath target.toList ≠ endpointPath then { status := 404 }
  else if method = "GET" then { status := 200, contentType := plain, buckets := flushBuckets }
  else if method = "HEAD" then { status := 200, contentType := plain }
  else { status := 405, allow := some "GET,HEAD" }

end EventPipeline.Metrics
