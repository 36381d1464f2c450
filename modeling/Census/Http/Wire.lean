import Census.Http.Client
import Census.Text.Blank

/-!
# Requests and responses on the wire

A request is a head of lines, and so is a response, whose body follows an empty line. The body is as
long as the head says, comes in chunks, or goes on until the connection is closed. Every exchange has a
connection of its own, which is read until it is closed.
-/

namespace Census
namespace Http

/-- The bytes that end a line of a head. -/
def lineEnd : List UInt8 := [13, 10]

def headLine (name value : String) : String := name ++ ": " ++ value ++ "\r\n"

/-- A request as it is sent. -/
def Request.wire (r : Request) : String :=
  "GET " ++ r.url.target ++ " HTTP/1.1\r\n" ++ headLine "host" r.url.authority
    ++ headLine "accept" r.accept ++ headLine "user-agent" r.userAgent
    ++ (match r.authorization with
      | some token => headLine "authorization" token
      | none => "")
    ++ headLine "connection" "close" ++ "\r\n"

/-- The bytes before a mark and the bytes behind it. -/
def cutAtMark (mark : List UInt8) : List UInt8 → Option (List UInt8 × List UInt8)
  | [] => none
  | b :: rest =>
    if mark.isPrefixOf (b :: rest) then some ([], (b :: rest).drop mark.length)
    else (cutAtMark mark rest).map fun p => (b :: p.1, p.2)

/-- The bytes of a text in which each byte is one character. -/
def latin (bs : List UInt8) : List Char := bs.map fun b => Char.ofNat b.toNat

/-- Bytes without blanks and tabs around them. -/
def unpadded (bs : List UInt8) : List UInt8 :=
  let isPad (b : UInt8) : Bool := b = 32 || b = 9
  ((bs.dropWhile isPad).reverse.dropWhile isPad).reverse

/-- The header in a line. -/
def header? (line : List UInt8) : Option Header :=
  (cutAtMark [58] line).map fun p => { name := String.ofList (latin p.1), value := unpadded p.2 }

/-- The status in the first line of a response. -/
def status? (line : List UInt8) : Option Nat :=
  match Text.partsAt ' ' (latin line) with
  | version :: code :: _ =>
    if "HTTP/1.".toList.isPrefixOf version then
      (Numeral.nat? 999 code).filter (100 ≤ ·)
    else none
  | _ => none

def headLines (head : List UInt8) : List (List UInt8) :=
  match cutAtMark lineEnd head with
  | some (line, rest) =>
    if rest.length < head.length then line :: headLines rest else [line]
  | none => [head]
termination_by head.length

/-- The number that a line of hexadecimal digits starts with. -/
def chunkSize? (line : List UInt8) : Option Nat :=
  let digits := (latin line).takeWhile fun c => (Text.Form.hexValue? c).isSome
  if digits = [] then none
  else some (digits.foldl (fun n c => 16 * n + (Text.Form.hexValue? c).getD 0) 0)

/-- The content of chunks, or nothing when they break off. `fuel` bounds their number. -/
def unchunked : Nat → List UInt8 → Option (List UInt8)
  | 0, _ => none
  | fuel + 1, s =>
    match cutAtMark lineEnd s with
    | none => none
    | some (line, rest) =>
      match chunkSize? line with
      | none => none
      | some 0 => some []
      | some n =>
        if rest.length < n then none
        else (unchunked fuel (rest.drop (n + lineEnd.length))).map (rest.take n ++ ·)

/-- The body of a response, or nothing when it breaks off. -/
def body? (headers : Headers) (s : List UInt8) : Option (List UInt8) :=
  let isChunked : Bool := match headers.text? "transfer-encoding" with
    | some v => (Text.trimmed v).map Char.toLower = "chunked".toList
    | none => false
  if isChunked then unchunked (s.length + 1) s
  else
    match (headers.text? "content-length").bind (Numeral.nat? Numeral.most64) with
    | some n => if s.length < n then none else some (s.take n)
    | none => some s

/-- What comes of a request on whose connection these bytes were received. -/
def Exchange.ofBytes (received : List UInt8) : Exchange :=
  match cutAtMark (lineEnd ++ lineEnd) received with
  | none => .dropped
  | some (head, rest) =>
    match headLines head with
    | [] => .dropped
    | first :: lines =>
      match status? first with
      | none => .dropped
      | some status =>
        let headers := lines.filterMap header?
        match body? headers rest with
        | some body => .answered { status, headers, body }
        | none => .broken { status, headers, body := [] }

end Http
end Census
