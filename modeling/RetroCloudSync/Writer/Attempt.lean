import RetroCloudSync.Library.Interaction
import RetroCloudSync.Library.Register
import RetroCloudSync.Journal.Spec

/-!
# One attempt of an outgoing write

`RCDAVWriter.c`, with the checks of `RCHTTPClientConditionalRequest`. An attempt is a program
that asks its surroundings: whether shutdown was requested, for a call of the journal, for a GET,
and for a conditional mutation to be sent. Nothing is assumed about the answers here.
-/

set_option autoImplicit false

namespace Writer

open Library Journal

/-- The fields of `RCHTTPResponse` that the writer reads. -/
structure HTTPResponse where
  statusCode : Int
  effectiveURL : Option Bytes
  etag : Option Bytes
  body : Option Bytes
deriving DecidableEq, Repr

/-- The methods `RCHTTPClientConditionalRequest` lets through. -/
inductive Method
  | put | delete | mkcalendar
deriving DecidableEq, Repr

/-- A conditional mutation as it goes out. -/
structure Mutation where
  method : Method
  url : Bytes
  contentType : Option Bytes
  body : Option Bytes
  cond : Cond Bytes
deriving DecidableEq

/-- What an attempt asks. -/
inductive Question
  | cancelled
  | journal (q : Call)
  | get (url : Bytes)
  | send (m : Mutation)

def Question.Answer : Question → Type
  | cancelled => Bool
  | journal q => Except RCError q.Answer
  | get _ => Except RCError HTTPResponse
  | send _ => Except RCError HTTPResponse

abbrev WriterM := Prog Question Question.Answer RCError

/-- Hand on what a fallible question answered. -/
def orRaise {α : Type} : Except RCError α → WriterM α
  | .ok a => .ret a
  | .error e => .raise e

def call (q : Call) : WriterM q.Answer := .ask (.journal q) orRaise

def fetch (url : Bytes) : WriterM HTTPResponse := .ask (.get url) orRaise

def send (m : Mutation) : WriterM HTTPResponse := .ask (.send m) orRaise

/-! ## The HTTP client -/

/-- `RC_ERROR_CANCELLED`. -/
def RC_ERROR_CANCELLED : Int := -9999

/-- `RCCheckCancellation`. -/
def checkCancellation : WriterM Unit :=
  .ask .cancelled fun (stop : Bool) =>
    if stop then .raise ⟨RC_ERROR_CANCELLED, "Shutdown requested"⟩ else .ret ()

/-- `LONG_MAX` of the 32-bit targets. -/
def LONG_MAX : Nat := 2147483647

/-- The check of `RCHTTPClientConditionalRequest`: one strong precondition, a body exactly where
the method takes one. -/
def validMutation (method : Method) (body : Option Bytes) (ifMatch : Option Bytes)
    (ifNoneMatch : Bool) : Bool :=
  (body.getD []).length ≤ LONG_MAX &&
  (if ifMatch.isSome then etagIsStrong ifMatch && !ifNoneMatch else ifNoneMatch) &&
  (method ≠ .mkcalendar || (ifMatch.isNone && ifNoneMatch)) &&
  (method ≠ .delete || (ifMatch.isSome && body.isNone)) &&
  (method = .delete || body.getD [] ≠ [])

/-- The precondition headers that go out. -/
def condition : Option Bytes → Cond Bytes
  | some etag => .tagged etag
  | none => .absent

/-- `RCHTTPClientConditionalRequest`. -/
def conditionalRequest (method : Method) (url : Bytes) (type body ifMatch : Option Bytes)
    (ifNoneMatch : Bool) : WriterM HTTPResponse :=
  if validMutation method body ifMatch ifNoneMatch then
    send ⟨method, url, type, body, condition ifMatch⟩
  else .raise ⟨1, "Invalid conditional DAV mutation"⟩

/-! ## The writer -/

/-- `desired`: the server holds exactly the bytes of the operation. -/
def desired (o : Operation) (r : HTTPResponse) : Bool :=
  r.statusCode = 200 && etagIsStrong r.etag && r.body.isSome && r.body = o.desiredBody

/-- `record`: only the body of a resource is kept, never an error document. -/
def record (id : Int) (state : OpState) (r : HTTPResponse) : WriterM Unit :=
  call (.recordResult id (some state.name) r.statusCode r.etag
    (if r.statusCode = 200 then r.body.elim (.null 0) .data else .null 0))

/-- `get`: a GET that must not have been redirected. -/
def get (href : Bytes) : WriterM HTTPResponse := do
  let r ← fetch href
  if r.effectiveURL = some href then pure r
  else .raise ⟨1, "Outgoing resource changed its canonical URL"⟩

/-- The server already shows the outcome the operation wants. -/
def achieved (o : Operation) (r : HTTPResponse) : Bool :=
  if o.kind = .delete then r.statusCode = 404 else desired o r

/-- A conflict when the server answered about the resource, undecided otherwise. -/
def disputed (r : HTTPResponse) : OpState :=
  if r.statusCode = 200 ∨ r.statusCode = 404 then .conflict else .uncertain

/-- The server stored this very write, under the ETag it announced. -/
def stored (write remote : HTTPResponse) : Bool :=
  remote.statusCode = 200 && remote.body.getD [] ≠ [] && etagIsStrong write.etag &&
    etagIsStrong remote.etag && write.etag = remote.etag

/-- From the answer to the mutation to the recorded result. -/
def verify (id : Int) (o : Operation) (write : HTTPResponse) : WriterM Unit := do
  if write.statusCode = 412 then do
    let remote ← get o.href
    record id (disputed remote) remote
  else if write.statusCode < 200 ∨ 300 ≤ write.statusCode then record id .uncertain write
  else do
    let remote ← get o.href
    if achieved o remote || (o.kind ≠ .delete && stored write remote) then
      record id .applied remote
    else record id (disputed remote) remote

/-- The resource is not what the operation starts from. -/
def moved (o : Operation) (remote : HTTPResponse) : Bool :=
  if o.kind = .create then remote.statusCode ≠ 404
  else remote.statusCode ≠ 200 || remote.etag.isNone || o.baseETag ≠ remote.etag

/-- The durable row cannot be turned into a conditional request. -/
def unconditional (o : Operation) : Bool :=
  (o.kind ≠ .create && !etagIsStrong o.baseETag) ||
    (o.kind ≠ .delete && o.desiredBody.getD [] = [])

/-- `RCDAVWriterAttempt`. -/
def attempt (id : Int) (type : Option Bytes) (now : Int) : WriterM Unit := do
  checkCancellation
  let o : Operation ← call (.get id)
  if unconditional o then
    .raise ⟨1, "Outgoing operation has an invalid durable precondition"⟩
  else do
    call (.beginAttempt id now)
    let remote ← get o.href
    if achieved o remote then record id .applied remote
    else if remote.statusCode ≠ 200 ∧ remote.statusCode ≠ 404 then record id .uncertain remote
    else if moved o remote then record id .conflict remote
    else do
      let write ← conditionalRequest (if o.kind = .delete then .delete else .put) o.href type
        o.desiredBody (if o.kind = .create then none else o.baseETag) (o.kind = .create)
      verify id o write

end Writer
