import CodeAtlas.Decimal.Shortest
import CodeAtlas.Json.Basic
import CodeAtlas.Record
import CodeAtlas.Text.Quoted

/-!
# Delivery to a store elsewhere

Rows go out in batches of bounded size. A request that fails for a passing reason is made again after a wait that grows with each
attempt, up to a number of attempts; any other failure ends the session at once.
-/

namespace CodeAtlas

/-- Why a store elsewhere did not serve a call. -/
inductive StoreFailure where
  /-- The store could not be reached or broke off. -/
  | unavailable (message : String)
  /-- The store answered with a status that is no success. -/
  | status (code : Nat)
  /-- The body of an answer is no JSON. -/
  | unreadable
  /-- The database refused the query; the failure has a kind of its own. -/
  | refused (kind : String)
  /-- Edges of an unknown kind have no relationship type. -/
  | unknownEdgeKind (kind : EdgeKind)
  /-- An answer lacks a field. -/
  | missingField (name : String)
  /-- A count in an answer is a text that is no whole number. -/
  | noCount (text : String)
  /-- A count in an answer is not a number. -/
  | undefinedCount
  /-- A count in an answer has no bound. -/
  | unboundedCount
  /-- A part of an answer is of the wrong type. -/
  | wrongType
  /-- An item of an answer has no fields. -/
  | noFields
  /-- A number that is not finite cannot be sent. -/
  | unsendable
  deriving DecidableEq, Repr

namespace StoreFailure

/-- The message of a failure, where it has one. -/
def message? : StoreFailure → Option String
  | unavailable m => some m
  | unknownEdgeKind k => some ("Unknown edge kind: " ++ k.name)
  | noCount t => some ("invalid literal for int() with base 10: " ++ Text.quote t)
  | undefinedCount => some "cannot convert float NaN to integer"
  | unsendable => some "Out of range float values are not JSON compliant"
  | _ => none

end StoreFailure

/-- How an attempt ended. -/
inductive Attempt (α : Type) where
  | success (answer : α)
  /-- A failure that may pass. -/
  | passing (failure : StoreFailure)
  /-- A failure that stays. -/
  | lasting (failure : StoreFailure)

/-- How often a request is made at most, and the base of the waits in between. -/
structure RetryPolicy where
  attempts : Nat
  base : Binary64 := .ofInt 2

namespace RetryPolicy

/-- The longest wait, in seconds. -/
def longestWait : Int := 30

/-- The wait after the first `made` attempts: the base raised to a power that grows by one each time, up to the longest wait. -/
def wait (p : RetryPolicy) (made : Nat) : Binary64 :=
  let w := p.base.pow (made - 1)
  if w.compareInt? longestWait = some .gt then .ofInt longestWait else w

end RetryPolicy

/-- A line to a store elsewhere: how the attempts to come will end, the requests made and the waits between them. -/
structure Line (request outcome : Type) where
  coming : List outcome
  sent : List request := []
  waits : List Binary64 := []

namespace Line

variable {request outcome : Type}

/-- Makes one attempt. On a line with nothing more to come it ends like `idle`. -/
def attempt (idle : outcome) (r : request) (line : Line request outcome) : outcome × Line request outcome :=
  (line.coming.headD idle, { line with coming := line.coming.drop 1, sent := line.sent ++ [r] })

/-- Waits before the next attempt. -/
def pause (seconds : Binary64) (line : Line request outcome) : Line request outcome :=
  { line with waits := line.waits ++ [seconds] }

/-- Makes a request. After `made` attempts it may be made again `left` times, as long as the failures are passing ones. -/
def deliver {α : Type} (policy : RetryPolicy) (idle : outcome) (judge : outcome → Attempt α) (r : request) :
    (left made : Nat) → Line request outcome → Except StoreFailure α × Line request outcome
  | 0, _, line =>
    let (o, line) := line.attempt idle r
    match judge o with
    | .success a => (.ok a, line)
    | .passing f => (.error f, line)
    | .lasting f => (.error f, line)
  | left + 1, made, line =>
    let (o, line) := line.attempt idle r
    match judge o with
    | .success a => (.ok a, line)
    | .lasting f => (.error f, line)
    | .passing _ => deliver policy idle judge r left (made + 1) (line.pause (policy.wait (made + 1)))

end Line

/-- Work done over a line, which a failure ends. -/
abbrev Delivery (request outcome : Type) := ExceptT StoreFailure (StateM (Line request outcome))

namespace Delivery

variable {request outcome : Type}

/-- Makes a request as often as the policy allows. -/
def ask {α : Type} (policy : RetryPolicy) (idle : outcome) (judge : outcome → Attempt α) (r : request) :
    Delivery request outcome α :=
  fun line => line.deliver policy idle judge r (policy.attempts - 1) 0

/-- A result that needs no request. -/
def settled {α : Type} (r : Except StoreFailure α) : Delivery request outcome α := fun line => (r, line)

/-- Rows in batches of at most `size`, which counts as one when it is zero. -/
def batches {α : Type} (size : Nat) : List α → List (List α)
  | [] => []
  | r :: rs => (r :: rs.take (size - 1)) :: batches size (rs.drop (size - 1))
termination_by rows => rows.length
decreasing_by simp only [List.length_drop, List.length_cons]; omega

/-- Sends batches one after the other and adds up the counts that come back. -/
def sendAll {α : Type} (send : List α → Delivery request outcome Int) : List (List α) → Delivery request outcome Int
  | [] => return 0
  | b :: bs => do
    let n ← send b
    return n + (← sendAll send bs)

end Delivery

end CodeAtlas
