import Census.Http.Header
import Census.Http.Url

/-!
# Requests and their answers

A server is a function from requests to what comes of them. The client adds the same headers to every
request, follows redirections, and reports what it received or why the exchange failed. A body that
broke off is known only by its being missing, since everything before the body has arrived. How a body
becomes text is up to the client, and may depend on the headers.
-/

namespace Census
namespace Http

structure Request where
  url : Url
  authorization : Option String
  accept : String
  userAgent : String
deriving DecidableEq

/-- What comes of a request. -/
inductive Exchange
  /-- There is nobody to connect to. -/
  | refused
  /-- The connection is closed without an answer. -/
  | dropped
  /-- No answer ever comes. -/
  | silent
  /-- The answer breaks off in its body. -/
  | broken (response : Response)
  | answered (response : Response)
deriving DecidableEq, Inhabited

/-- What comes of a request when the same one has been made a number of times before. -/
abbrev Server := Request → Nat → Exchange

/-- A server that nobody can connect to. -/
def Server.unreachable : Server := fun _ _ => .refused

/-- Why a client received nothing that it can use. -/
inductive Failure
  | badAddress
  | noConnection
  | noAnswer
  | timeOut
  | brokenBody
  | tooManyRedirections
deriving DecidableEq

namespace Failure

def label : Failure → String
  | badAddress => "request builder error"
  | noConnection => "connect error"
  | noAnswer => "request error"
  | timeOut => "timeout"
  | brokenBody => "decode error"
  | tooManyRedirections => "transport error"

def message (f : Failure) (address : String) : String :=
  match f with
  | badAddress => "builder error"
  | noConnection | noAnswer | timeOut => "error sending request for url (" ++ address ++ ")"
  | brokenBody => "error decoding response body"
  | tooManyRedirections => "error following redirect for url (" ++ address ++ ")"

end Failure

/-- A response as it arrived; a body that broke off is missing. -/
structure Received where
  status : Nat
  headers : Headers
  body : Option (List UInt8)
deriving DecidableEq

/-- What a client made of an address: the requests that the server got, and the response or the reason
that there is none. -/
structure Transfer where
  requests : List Request
  result : Except Failure Received

/-- How bodies are made text of, each with the headers that came before it. -/
abbrev Decoder := Headers → List UInt8 → String

/-- A client that identifies itself the same way to every service. -/
structure Client where
  authorization : String
  userAgent : String
  decode : Decoder

inductive ClientFault
  | badToken
  | badAgent
deriving DecidableEq

namespace ClientFault

def message : ClientFault → String
  | badToken =>
    "Credential error: token contains characters that are not valid in an HTTP header"
  | badAgent => "HTTP client initialization error: builder error"

/-- The message together with what caused it. -/
def chain : ClientFault → String
  | badToken => badToken.message
  | badAgent => badAgent.message ++ ": builder error: failed to parse header value"

end ClientFault

namespace Client

/-- The media type that is asked for. -/
def mediaType : String := "application/vnd.github+json"

/-- The client for a token and a name to go by, both of which have to fit into headers. -/
def make (decode : Decoder) (token userAgent : String) : Except ClientFault Client :=
  if ¬ isValue ("token " ++ token) then .error .badToken
  else if ¬ isValue userAgent then .error .badAgent
  else .ok { authorization := "token " ++ token, userAgent, decode }

theorem make_of_isValue {decode : Decoder} {token userAgent : String}
    (fits : isValue ("token " ++ token) = true) (named : isValue userAgent = true) :
    make decode token userAgent = .ok { authorization := "token " ++ token, userAgent, decode } := by
  simp [make, fits, named]

/-- The text of a body that has arrived. -/
def text? (c : Client) (r : Received) : Option String := r.body.map (c.decode r.headers)

def request (c : Client) (url : Url) : Request where
  url := url
  authorization := some c.authorization
  accept := mediaType
  userAgent := c.userAgent

/-- The statuses that lead elsewhere. -/
def isRedirection (status : Nat) : Bool :=
  status = 301 || status = 302 || status = 303 || status = 307 || status = 308

/-- Where a response leads, if it leads anywhere. -/
def destination? (from? : Url) (r : Response) : Option Url :=
  if isRedirection r.status then
    ((r.headers.value? "location").bind Text.ofBytes?).bind from?.follow?
  else none

/-- A request to another service does not carry the credential along. -/
def redirect (r : Request) (url : Url) : Request :=
  { r with url, authorization := if r.url.sameService url then r.authorization else none }

/-- Makes a request and follows at most `hops` redirections. -/
def send (server : Server) (n : Nat) : Nat → Request → Transfer
  | hops, request =>
    let settle (r : Response) (body : Option (List UInt8)) : Transfer :=
      match destination? request.url r, hops with
      | none, _ => ⟨[request], .ok { status := r.status, headers := r.headers, body }⟩
      | some _, 0 => ⟨[request], .error .tooManyRedirections⟩
      | some url, hops + 1 =>
        let t := send server n hops (redirect request url)
        ⟨request :: t.requests, t.result⟩
    match server request n with
    | .refused => ⟨[], .error .noConnection⟩
    | .dropped => ⟨[request], .error .noAnswer⟩
    | .silent => ⟨[request], .error .timeOut⟩
    | .broken r => settle r none
    | .answered r => settle r (some r.body)

def mostHops : Nat := 10

/-- Asks for an address for the `n`-th time, counted from 0. -/
def get (c : Client) (server : Server) (n : Nat) (url : Option Url) : Transfer :=
  match url with
  | none => ⟨[], .error .badAddress⟩
  | some url => send server n mostHops (c.request url)

end Client
end Http
end Census
