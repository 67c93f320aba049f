import LiveHls.Segment
/-! Responses, and the headers that are completed when one is sent over HTTP. -/
namespace LiveHls.Http

inductive Body where
  | text (s : String)
  | bytes (data : Bytes)

structure Response where
  status : Nat
  headers : List (String × String)
  body : Body

namespace Response

def plain (status : Nat) (text : String) : Response := ⟨status, [], .text text⟩

def json (status : Nat) (text : String) : Response :=
  ⟨status, [("Content-Type", "application/json")], .text text⟩

def contentType (r : Response) : String :=
  match r.headers.lookup "Content-Type", r.body with
  | some kind, .text _ => s!"{kind}; charset=utf-8"
  | none, .text _ => "text/html; charset=utf-8"
  | some kind, .bytes _ => kind
  | none, .bytes _ => "application/octet-stream"

def contentLength (r : Response) : Nat :=
  match r.body with
  | .text s => s.utf8ByteSize
  | .bytes data => data.length

/-- Adds the character set of texts, the default type and the length. -/
def complete (r : Response) : Response :=
  { r with
    headers := r.headers.filter (·.1 ≠ "Content-Type")
      ++ [("Content-Type", r.contentType), ("Content-Length", toString r.contentLength)] }

end Response

end LiveHls.Http
