import Census.Text.Form
import Census.Text.Numeral
import Census.Text.Parts

/-!
# Addresses of web services

An address has a scheme, a host, perhaps a port, a path and perhaps a query. Text is read as one in
the way browsers agree on: blanks around it and line breaks in it do not count, backslashes are
slashes, `.` and `..` are taken out of the path, and characters that have no place in a path or a query
are written as percent codes. Only the schemes `http` and `https` are known.
-/

namespace Census
namespace Http

structure Url where
  secure : Bool
  host : String
  port : Option Nat
  path : String
  query : Option String
deriving DecidableEq

namespace Url

def isSlash (c : Char) : Bool := c = '/' || c = '\\'

/-- Text without control characters and blanks around it and without tabs and line breaks in it. -/
def cleaned (s : List Char) : List Char :=
  let low (c : Char) : Bool := c.toNat ≤ 0x20
  (((s.dropWhile low).reverse.dropWhile low).reverse).filter fun c =>
    !(c.toNat = 0x9 || c.toNat = 0xA || c.toNat = 0xD)

/-- Splits a text at the first character with a property, which belongs to the second part. -/
def cut (p : Char → Bool) (s : List Char) : List Char × List Char :=
  (s.takeWhile fun c => !p c, s.dropWhile fun c => !p c)

/-- The scheme before the first colon, in lower case, and what follows the colon. -/
def scheme? (s : List Char) : Option (List Char × List Char) :=
  match cut (· = ':') s with
  | (c :: name, ':' :: rest) =>
    if c.isAlpha ∧ name.all fun d => d.isAlphanum || d = '+' || d = '-' || d = '.' then
      some ((c :: name).map Char.toLower, rest)
    else none
  | _ => none

/-! ## Hosts -/

/-- The bytes of a text whose percent codes are resolved; one that is not a code stands for itself. -/
def percentDecoded : List Char → List UInt8
  | [] => []
  | '%' :: a :: b :: rest =>
    match Text.Form.hexValue? a, Text.Form.hexValue? b with
    | some hi, some lo => UInt8.ofNat (hi * 16 + lo) :: percentDecoded rest
    | _, _ => Text.bytes "%" ++ percentDecoded (a :: b :: rest)
  | c :: rest => Text.bytes (String.singleton c) ++ percentDecoded rest

/-- Characters that no host name has. -/
def isForbiddenInHost (c : Char) : Bool :=
  c.toNat ≤ 0x20 || c.toNat = 0x7F || "#/:<>?@[\\]^|%".toList.contains c

/-- One part of a numeric host: decimal, octal behind a zero, or hexadecimal behind `0x`. -/
def hostNumber? (s : List Char) : Option Nat :=
  let inBase (base : Nat) (ds : List Char) : Option Nat :=
    ds.foldlM (fun n c => do
      let v ← Text.Form.hexValue? c
      if v < base then some (n * base + v) else none) 0
  match s with
  | [] => none
  | '0' :: 'x' :: ds => inBase 16 ds
  | '0' :: 'X' :: ds => inBase 16 ds
  | '0' :: ds => inBase 8 ds
  | ds => inBase 10 ds

/-- The parts of a host name, without an empty last one. -/
def hostParts (s : List Char) : List (List Char) :=
  let parts := Text.partsAt '.' s
  if 1 < parts.length ∧ parts.getLast? = some [] then parts.dropLast else parts

/-- Whether a host has to be a numeric address: its last part is a number. -/
def endsInNumber (s : List Char) : Bool :=
  match (hostParts s).getLast? with
  | some part => part ≠ [] && (part.all Char.isDigit || (hostNumber? part).isSome)
  | none => false

/-- Whether a host is a numeric address: at most four numbers, all but the last below 256, and the
last small enough for the bytes that are left to it. -/
def isNumericHost (s : List Char) : Bool :=
  match (hostParts s).mapM hostNumber? with
  | none => false
  | some numbers =>
    numbers.length ≤ 4 && numbers.dropLast.all (· < 256)
      && numbers.getLast?.any fun n => n < Nat.pow 256 (5 - numbers.length)

/-- Whether a text is up to four hexadecimal digits. -/
def isGroup (s : List Char) : Bool :=
  s ≠ [] && s.length ≤ 4 && s.all fun c => (Text.Form.hexValue? c).isSome

/-- Whether a text is four decimal numbers below 256 with dots between them. -/
def isDottedQuad (s : List Char) : Bool :=
  let parts := Text.partsAt '.' s
  parts.length = 4 && parts.all fun p =>
    (p = ['0'] || p.head? ≠ some '0') && ((Numeral.digits? p).any (· < 256))

/-- How many 16-bit groups a text of groups with colons between them has. The last two of them may be
written as a dotted quad. -/
def groupCount? (s : List Char) : Option Nat :=
  if s = [] then some 0
  else
    let parts := Text.partsAt ':' s
    let tail := parts.getLast?.getD []
    if parts.dropLast.all isGroup then
      if isGroup tail then some parts.length
      else if isDottedQuad tail then some (parts.length + 1)
      else none
    else none

/-- A text cut at the first double colon in it. -/
def cutDouble : List Char → List Char × Option (List Char)
  | ':' :: ':' :: rest => ([], some rest)
  | c :: rest =>
    let (a, b) := cutDouble rest
    (c :: a, b)
  | [] => ([], none)

/-- Whether a text between brackets is an address of eight groups, of which a double colon may stand
for one or more. -/
def isGroupedHost (s : List Char) : Bool :=
  match cutDouble s with
  | (all, none) => groupCount? all = some 8
  | (left, some right) =>
    match groupCount? left, groupCount? right with
    | some a, some b => !left.contains '.' && a + b < 8
    | _, _ => false

def host? (s : List Char) : Option String :=
  match s with
  | [] => none
  | '[' :: rest =>
    if rest.getLast? = some ']' ∧ isGroupedHost rest.dropLast then
      some (String.ofList (('[' :: rest).map Char.toLower))
    else none
  | s =>
    let name := (Text.lenient (percentDecoded s)).toList.map Char.toLower
    if name = [] ∨ name.any isForbiddenInHost then none
    else if endsInNumber name ∧ ¬ isNumericHost name then none
    else some (String.ofList name)

/-- A port: nothing for no digits and for the usual port of the scheme. -/
def port? (secure : Bool) (s : List Char) : Option (Option Nat) :=
  if s = [] then some none
  else
    match (Numeral.digits? s).filter (· < 65536) with
    | none => none
    | some n => some (if n = (if secure then 443 else 80) then none else some n)

/-- Host and port of the part between the slashes; a name and password before an `@` are passed
over. -/
def authority? (secure : Bool) (s : List Char) : Option (String × Option Nat) :=
  let place := ((s.reverse.takeWhile (· ≠ '@')).reverse)
  let hostLength :=
    if place.head? = some '[' then (place.takeWhile (· ≠ ']')).length + 1
    else (place.takeWhile (· ≠ ':')).length
  match host? (place.take hostLength), place.drop hostLength with
  | some host, [] => some (host, none)
  | some host, ':' :: digits => (port? secure digits).map (host, ·)
  | _, _ => none

/-! ## Paths and queries -/

def percentCode (b : UInt8) : List Char :=
  ['%', Text.Form.hexDigit (b.toNat / 16), Text.Form.hexDigit (b.toNat % 16)]

/-- A text in which the bytes of some characters are percent codes. -/
def escaped (isEscaped : Char → Bool) (s : List Char) : List Char :=
  s.flatMap fun c =>
    if 0x7E < c.toNat || c.toNat < 0x20 || isEscaped c then
      (Text.bytes (String.singleton c)).flatMap percentCode
    else [c]

def escapedInPath (c : Char) : Bool := " \"#<>?^`\x7b\x7d".toList.contains c

def escapedInQuery (c : Char) : Bool := " \"#<>'".toList.contains c

def isSingleDot (s : List Char) : Bool :=
  let s := s.map Char.toLower
  s = ['.'] || s = ['%', '2', 'e']

def isDoubleDot (s : List Char) : Bool :=
  let s := String.ofList (s.map Char.toLower)
  s = ".." || s = ".%2e" || s = "%2e." || s = "%2e%2e"

/-- The segments of a path without the dots, going on from the segments so far. -/
def segments : List (List Char) → List (List Char) → List (List Char)
  | done, [] => done
  | done, [part] =>
    if isDoubleDot part then done.dropLast ++ [[]]
    else if isSingleDot part then done ++ [[]]
    else done ++ [escaped escapedInPath part]
  | done, part :: more =>
    if isDoubleDot part then segments done.dropLast more
    else if isSingleDot part then segments done more
    else segments (done ++ [escaped escapedInPath part]) more

/-- The text of segments that follow given ones; `s` starts behind a slash. -/
def pathText (before : List (List Char)) (s : List Char) : String :=
  let parts := Text.partsAt '/' (s.map fun c => if c = '\\' then '/' else c)
  String.ofList ((segments before parts).flatMap fun p => '/' :: p)

/-- Path and query of what follows an authority; a fragment is passed over. -/
def pathAndQuery (before : List (List Char)) (s : List Char) : String × Option String :=
  let (s, _) := cut (· = '#') s
  match cut (· = '?') s with
  | (path, []) => (pathText before path, none)
  | (path, _ :: query) => (pathText before path, some (String.ofList (escaped escapedInQuery query)))

/-- Reads on behind the scheme and its colon. -/
def ofRest? (secure : Bool) (s : List Char) : Option Url :=
  let (authority, rest) :=
    cut (fun c => isSlash c || c = '?' || c = '#') (s.dropWhile isSlash)
  match authority? secure authority with
  | none => none
  | some (host, port) =>
    let rest := match rest with
      | c :: more => if isSlash c then more else rest
      | [] => []
    let (path, query) := pathAndQuery [] rest
    some { secure, host, port, path, query }

def ofText? (s : String) : Option Url :=
  match scheme? (cleaned s.toList) with
  | some (['h', 't', 't', 'p'], rest) => ofRest? false rest
  | some (['h', 't', 't', 'p', 's'], rest) => ofRest? true rest
  | _ => none

/-- The address that a reference leads to from an address. -/
def follow? (u : Url) (reference : String) : Option Url :=
  let s := cleaned reference.toList
  let scheme : List Char := if u.secure then "https".toList else "http".toList
  match scheme? s with
  | some (name, rest) =>
    if name = scheme ∧ ¬ rest.head?.any isSlash then relative u rest
    else if name = "http".toList then ofRest? false rest
    else if name = "https".toList then ofRest? true rest
    else none
  | none => relative u s
where
  /-- The address of a reference without a scheme. -/
  relative (u : Url) (s : List Char) : Option Url :=
    let own := (Text.partsAt '/' u.path.toList).drop 1
    match s with
    | [] => some u
    | c :: rest =>
      if isSlash c then
        if rest.head?.any isSlash then ofRest? u.secure rest
        else
          let (path, query) := pathAndQuery [] rest
          some { u with path, query }
      else if c = '#' then some u
      else if c = '?' then some { u with query := (pathAndQuery [] (c :: rest)).2 }
      else
        let (path, query) := pathAndQuery own.dropLast (c :: rest)
        some { u with path, query }

/-- The address with one more parameter in its query. -/
def withParameter (u : Url) (name value : String) : Url :=
  let pair := Text.Form.encode name ++ "=" ++ Text.Form.encode value
  let query := match u.query with
    | none => pair
    | some q => if q = "" then pair else q ++ "&" ++ pair
  { u with query := some query }

/-- What a request names: the path and the query. -/
def target (u : Url) : String :=
  u.path ++ match u.query with
    | none => ""
    | some q => "?" ++ q

def sameService (u v : Url) : Bool := u.secure = v.secure && u.host = v.host && u.port = v.port

/-- The host, and the port if it is not the usual one. -/
def authority (u : Url) : String :=
  u.host ++ match u.port with
    | none => ""
    | some n => ":" ++ toString n

def text (u : Url) : String :=
  (if u.secure then "https://" else "http://") ++ u.authority ++ u.target

end Url
end Http
end Census
