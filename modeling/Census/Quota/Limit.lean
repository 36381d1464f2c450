import Census.Http.Header
import Census.Text.Blank

/-!
# Signs of an exhausted quota

A service that has had enough says so with status 429, or with status 403 and a header that names the
delay or says that nothing remains. Status 403 without either is a matter of permission.
-/

namespace Census
namespace Quota

def retryAfter : String := "retry-after"

def limitRemaining : String := "x-ratelimit-remaining"

def limitReset : String := "x-ratelimit-reset"

/-- Whether a response says that the quota is used up. -/
def isLimit (status : Nat) (headers : Http.Headers) : Bool :=
  status = 429
    || (status = 403
      && ((headers.value? retryAfter).isSome
        || (headers.text? limitRemaining).any fun v => Text.trimmed v = ['0']))

end Quota
end Census
