import Flowgate.Http.Url
import Flowgate.Package.Manager

/-!
Package indexes: where packages are found and their versions are listed. One index looks at the
shelf, the other asks a registry over the network.
-/

namespace Flowgate.Package

open Json (Value Shape Codec)

structure SearchQuery where
  text : String
  size : Option Nat
  start : Option Nat

namespace SearchQuery

def empty : SearchQuery := { text := "", size := none, start := none }

def shape : Shape :=
  .record
    [{ name := "text", aliases := ["q"], required := false, shape := .string },
     Json.defaulted "size" (.optional (.count Json.largestCount)),
     Json.defaulted "from" (.optional (.count Json.largestCount))]

private def count? (v : Value) (name : String) : Option Nat :=
  (v.field name).integer?.map Int.toNat

def decode (v : Value) : Option SearchQuery :=
  some
    { text := (v.field "text").string?.getD ""
      size := count? v "size"
      start := count? v "from" }

def codec : Codec SearchQuery := { shape, decode }

def count (q : SearchQuery) : Nat := q.size.getD 20

def offset (q : SearchQuery) : Nat := q.start.getD 0

end SearchQuery

structure PackageSummary where
  name : String
  version : String
  description : Option String
  installed : Bool

structure SearchResults where
  -- How many packages match, which may be more than are listed.
  total : Nat
  packages : List PackageSummary

def PackageSummary.toJson (p : PackageSummary) : Value :=
  .object
    [("name", .string p.name), ("version", .string p.version),
     ("description", .ofString? p.description), ("installed", .bool p.installed)]

def SearchResults.toJson (r : SearchResults) : Value :=
  .object [("total", .ofNat r.total), ("packages", .list PackageSummary.toJson r.packages)]

inductive IndexFault where
  -- The address of the index is none.
  | noAddress (fault : Http.UrlFault)
  | notSent (url reason : String)
  | refused (url : String) (status : Nat)
  -- The answer is not what an index answers.
  | unreadable
  | timedOut (what : String) (secs : Nat)

structure Index where
  search : SearchQuery → Job Host (Except IndexFault SearchResults)
  -- All versions of a package; an unknown one has none.
  versions : String → Job Host (Except IndexFault (List String))

/-! ### Of the shelf -/

namespace Shelf

def search (s : Shelf) (q : SearchQuery) : SearchResults :=
  let matching := s.published.filterMap fun (name, versions) =>
    if Text.contains name (Text.trim q.text) then versions.getLast? else none
  let summaries := matching.map fun p =>
    { name := p.name, version := p.version, description := some p.description, installed := false }
  { total := summaries.length, packages := (summaries.drop q.offset).take q.count }

def versions (s : Shelf) (name : String) : List String :=
  ((Entries.get? s.published name).getD []).map (·.version)

def index : Index where
  search q := .look fun h => .done (.ok (h.shelf.search q))
  versions name := .look fun h => .done (.ok (h.shelf.versions name))

end Shelf

/-! ### Over the network -/

inductive Reply where
  | unreachable (reason : String)
  | answered (status : Nat) (body : List UInt8)

structure RemoteIndex where
  -- The address of the registry, without slashes at its end.
  base : String
  keyword : String
  fetch : String → Reply

namespace RemoteIndex

def of (url keyword : String) (fetch : String → Reply) : RemoteIndex :=
  { base := Text.trimEnd (· == '/') url, keyword, fetch }

-- The words to search for: always with the keyword of module packages.
def searchText (r : RemoteIndex) (text : String) : String :=
  let text := Text.trim text
  if text.isEmpty then "keywords:" ++ r.keyword else text ++ " keywords:" ++ r.keyword

def searchUrl (r : RemoteIndex) (q : SearchQuery) : Except Http.UrlFault Http.Url := do
  let url ← Http.Url.parse (r.base ++ "/-/v1/search")
  return url.withPairs
    [("text", r.searchText q.text), ("size", toString q.count), ("from", toString q.offset)]

-- The address of a package; a slash in its name is encoded.
def versionsUrl (r : RemoteIndex) (name : String) : Except Http.UrlFault Http.Url :=
  Http.Url.parse
    (r.base ++ "/" ++ String.ofList (name.toList.flatMap fun c =>
      if c = '/' then ['%', '2', 'F'] else [c]))

-- The body of an answer that is no error.
private def body (url : String) : Reply → Except IndexFault (List UInt8)
  | .unreachable reason => .error (.notSent url reason)
  | .answered status body =>
    if 400 ≤ status && status < 600 then .error (.refused url status) else .ok body

private def foundShape : Shape :=
  .record
    [Json.defaulted "objects"
      (.list (.record
        [Json.required "package"
          (.record
            [Json.required "name" .string, Json.required "version" .string,
             Json.defaulted "description" (.optional .string)])])),
     Json.defaulted "total" (.count Json.largestCount)]

private def summaryOf (v : Value) : Option PackageSummary := do
  let p := v.field "package"
  return {
    name := ← (p.field "name").string?
    version := ← (p.field "version").string?
    description := (p.field "description").string?
    installed := false }

private def foundCodec : Codec SearchResults where
  shape := foundShape
  decode v := do
    return {
      total := ((v.field "total").integer?.getD 0).toNat
      packages := ← ((v.field "objects").array?.getD []).mapM summaryOf }

def search (r : RemoteIndex) (q : SearchQuery) : Except IndexFault SearchResults := do
  let url := (← (r.searchUrl q).mapError .noAddress).text
  let bytes ← body url (r.fetch url)
  match foundCodec.ofBytes bytes with
  | .ok found => .ok found
  | .error _ => .error .unreadable

def versions (r : RemoteIndex) (name : String) : Except IndexFault (List String) := do
  let url := (← (r.versionsUrl name).mapError .noAddress).text
  match r.fetch url with
  | .answered 404 _ => .ok []
  | reply =>
    let bytes ← body url reply
    match Json.parse? (Text.readable bytes) with
    | none => .error .unreadable
    | some v => .ok (Entries.names ((v.field "versions").object?.getD []))

def index (r : RemoteIndex) : Index where
  search q := .done (r.search q)
  versions name := .done (r.versions name)

end RemoteIndex

/-! ### Messages -/

private def reasons : List (Nat × String) :=
  [(400, "Bad Request"), (401, "Unauthorized"), (402, "Payment Required"), (403, "Forbidden"),
   (404, "Not Found"), (405, "Method Not Allowed"), (406, "Not Acceptable"),
   (407, "Proxy Authentication Required"), (408, "Request Timeout"), (409, "Conflict"),
   (410, "Gone"), (411, "Length Required"), (412, "Precondition Failed"),
   (413, "Payload Too Large"), (414, "URI Too Long"), (415, "Unsupported Media Type"),
   (416, "Range Not Satisfiable"), (417, "Expectation Failed"), (418, "I'm a teapot"),
   (421, "Misdirected Request"), (422, "Unprocessable Entity"), (423, "Locked"),
   (424, "Failed Dependency"), (426, "Upgrade Required"), (428, "Precondition Required"),
   (429, "Too Many Requests"), (431, "Request Header Fields Too Large"),
   (451, "Unavailable For Legal Reasons"), (500, "Internal Server Error"),
   (501, "Not Implemented"), (502, "Bad Gateway"), (503, "Service Unavailable"),
   (504, "Gateway Timeout"), (505, "HTTP Version Not Supported"),
   (506, "Variant Also Negotiates"), (507, "Insufficient Storage"), (508, "Loop Detected"),
   (510, "Not Extended"), (511, "Network Authentication Required")]

private def statusText (status : Nat) : String :=
  toString status ++ " " ++ ((reasons.find? (·.1 = status)).map Prod.snd).getD
    "<unknown status code>"

def IndexFault.message : IndexFault → String
  | .noAddress fault => "builder error: " ++ fault.message
  | .notSent url reason => "error sending request for url (" ++ url ++ "): " ++ reason
  | .refused url status =>
    (if status < 500 then "HTTP status client error (" else "HTTP status server error (")
      ++ statusText status ++ ") for url (" ++ url ++ ")"
  | .unreadable => "error decoding response body: " ++ Json.faultDetail
  | .timedOut what secs => what ++ " timed out after " ++ durationText secs

end Flowgate.Package
