import Census.Log.Line
import Census.Search.Query
import Census.Time.Span

/-!
# Options of a census

Every option has a default, so that a census can be started without any. A few values that can be
written down make no sense for a census; they are looked at in a fixed order, and the first of them is
the fault.
-/

namespace Census

/-- The name and version by which the census is known. -/
def programName : String := "language_census"

def programVersion : String := "0.1.0"

structure Options where
  /-- The file that lists the terms. -/
  input : String
  /-- The file that holds the token when the environment does not. -/
  tokenFile : String
  countsPath : String
  summaryPath : String
  /-- The address of the service, whose paths are added to it. -/
  service : String
  /-- How many passes over the failed terms there may be. -/
  retryBudget : Nat
  /-- How long a search may take, in seconds. -/
  deadline : Nat
  /-- What the census calls itself in its requests. -/
  userAgent : String
  logLevel : Log.Level
  logForm : Log.Form
deriving DecidableEq

namespace Options

def standard : Options where
  input := "./languages.json"
  tokenFile := "./token"
  countsPath := "./repository_usage.json"
  summaryPath := "./repository_usage_summary.json"
  service := "https://api.github.com"
  retryBudget := 3
  deadline := 30
  userAgent := programName ++ "/" ++ programVersion
  logLevel := .info
  logForm := .plain

/-- The most passes over the failed terms. More would search for a broken term for hours. -/
def mostRetries : Nat := 100

/-- The beginnings of an address. -/
def schemes : List String := ["http://", "https://"]

/-- What makes options useless. -/
inductive Fault
  | noTime
  | manyRetries
  | notAddress (service : String)
  | anonymous
deriving DecidableEq

namespace Fault

def field : Fault → String
  | noTime => "fetch_timeout_seconds"
  | manyRetries => "retry_budget"
  | notAddress _ => "api_base"
  | anonymous => "user_agent"

def demand : Fault → String
  | noTime => "must be greater than 0"
  | manyRetries => "must be at most " ++ toString mostRetries
  | notAddress service => "must start with http:// or https:// (got '" ++ service ++ "')"
  | anonymous => "must not be empty; the search API rejects anonymous agents"

def message (f : Fault) : String := "Invalid value for " ++ f.field ++ ": " ++ f.demand

end Fault

/-- The first thing that makes the options useless. -/
def fault? (o : Options) : Option Fault :=
  if o.deadline = 0 then some .noTime
  else if mostRetries < o.retryBudget then some .manyRetries
  else if ¬ schemes.any fun s => s.toList.isPrefixOf o.service.toList then some (.notAddress o.service)
  else if Text.trim o.userAgent = "" then some .anonymous
  else none

/-- The address of the service without the slashes that end it. -/
def base (o : Options) : String := Search.baseOf o.service

/-- How long a search may take. -/
def span (o : Options) : Span := .ofSeconds o.deadline

end Options
end Census
