import Flowgate.Http.MediaType
import Flowgate.Http.Uri
import Flowgate.Json.Value

/-!
Requests and responses, as far as routing and handlers look at them.
-/

namespace Flowgate.Http

structure Request where
  method : String
  uri : Uri
  contentType : Option String
  body : List UInt8

-- The greatest body that is read, in bytes.
def bodyLimit : Nat := 2097152

-- Whether a text is a token, as methods and the names of headers are.
def isToken (s : String) : Bool := !s.isEmpty && s.toList.all MediaType.isTokenChar

-- Whether a header may hold a character: a control character other than a tab may not stand.
def isHeaderChar (c : Char) : Bool := (c.toNat ≥ 32 && c.toNat ≠ 127) || c = '\t'

def isHeader (header : String × String) : Bool :=
  isToken header.1 && header.2.toList.all isHeaderChar

-- The first header of a name, whose case does not matter.
def headerOf? (headers : List (String × String)) (name : String) : Option String :=
  (headers.find? fun header => header.1.map Char.toLower = name).map Prod.snd

-- A request, if its method is a token, its target is valid, and so are its headers.
def Request.of? (method target : String) (headers : List (String × String))
    (body : List UInt8) : Option Request :=
  if !isToken method || !headers.all isHeader then none
  else (Uri.parse? target).map fun uri =>
    { method, uri, contentType := headerOf? headers "content-type", body }

def Request.isTooLarge (r : Request) : Bool := r.body.length > bodyLimit

-- Whether a header can be read as a text: all of it is ASCII.
def isReadable (header : String) : Bool := header.toList.all (·.toNat < 128)

def Request.declaresJson (r : Request) : Bool :=
  ((r.contentType.filter isReadable) >>= MediaType.parse?).any MediaType.isJson

inductive Content where
  | empty
  | json (v : Json.Value)
  | plain (text : String)
  -- A text for people, with no fixed wording.
  | notice

structure Response where
  status : Nat
  content : Content

namespace Response

def bare (status : Nat) : Response := { status, content := .empty }

def json (status : Nat) (v : Json.Value) : Response := { status, content := .json v }

def error (status : Nat) (message : String) : Response :=
  .json status (.record [("error", .string message)])

-- A response to a request method; one to `HEAD` carries no content.
def forMethod (method : String) (r : Response) : Response :=
  if method = "HEAD" then { r with content := .empty } else r

end Response

end Flowgate.Http
