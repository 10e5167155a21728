import RetroCloudSync.Resource.Parse

/-!
# One call of the HTTP client

`RCRequest` of `RCHTTPClient.c` and its three entry points. A call goes through rounds: the URL is
checked, the headers are built, the options of a libcurl handle are set, and the request is
transmitted; a redirect starts the next round at the URL it names.

`Weather` is what the call meets: which allocations fail in which round, which options libcurl
refuses, what the transfers bring and when shutdown is requested. A call computes the requests that
it transmits. `Disciplined` says what they may be; every call keeps to it but one kind of `MOVE`.
-/

set_option autoImplicit false

namespace Dav

open Journal Resource

/-- What the client uses of libcurl's URLs: scheme and host of a URL without user, and resolving a
reference. The base is none when it could not be copied. -/
structure URLs where
  parse : Bytes → Option (Bytes × Bytes)
  resolve : Option Bytes → Bytes → Option Bytes

/-- `RCHTTPClient`, as far as a request reads it. -/
structure Client where
  username : Bytes
  password : Bytes
  allowedHostSuffix : Option Bytes

/-- `RCHTTPResponse`. -/
structure Response where
  statusCode : Int
  effectiveURL : Option Bytes
  location : Option Bytes
  etag : Option Bytes
  contentType : Option Bytes
  body : Option Bytes

/-- The allocations of a round, in the order they are made. -/
inductive Alloc
  | destinationURL | copyURL | currentURL | handle | depth | destinationText | destination
  | overwrite | contentType | ifMatchText | ifMatch | ifNoneMatch | accept | effectiveURL
  | redirectURL
deriving DecidableEq

/-- The options set on a handle, in the order they are set. -/
inductive Setting
  | url | customRequest | username | password | httpAuth | caInfo | sslVerifyPeer | sslVerifyHost
  | protocols | redirProtocols | followLocation | noSignal | noProgress | xferInfoFunction
  | connectTimeout | timeout | userAgent | httpHeader | writeFunction | writeData | headerFunction
  | headerData | postFields | postFieldSize
deriving DecidableEq

/-- What `curl_easy_perform` brings: its failure, with the code and its text, and the response. -/
structure Transfer where
  failure : Option (Int × String)
  exceededLimit : Bool
  response : Response

/-- What the rounds of a call meet. -/
structure Weather where
  fails : Nat → Alloc → Bool
  refuses : Nat → Setting → Option (Int × String)
  transfer : Nat → Transfer
  /-- Shutdown was requested before the transfer of the round, or by its end. -/
  stopped : Nat → Bool × Bool

/-- The arguments of `RCRequest`. -/
structure Request where
  method : Bytes
  url : Option Bytes
  depth : Option Bytes
  contentType : Option Bytes
  body : Buf
  ifMatch : Option Bytes
  ifNoneMatch : Bool
  destination : Option Bytes

/-- A request as it is transmitted. -/
structure Sent where
  url : Bytes
  method : Bytes
  username : Bytes
  password : Bytes
  headers : List Bytes
  body : Option Bytes
deriving DecidableEq

/-! ## Checking a URL -/

/-- `RCHostHasSuffix`. -/
def hostHasSuffix (host : Bytes) : Option Bytes → Bool
  | none => true
  | some suffix =>
    if suffix = [] then true
    else if host.length < suffix.length then false
    else sameLetters (host.drop (host.length - suffix.length)) suffix

/-- `RCValidateDestination`. -/
def validateDestination (urls : URLs) (suffix : Option Bytes) (fails : Bool) (url : Bytes) :
    Except RCError Unit :=
  match if fails then none else urls.parse url with
  | none => .error ⟨1, "Invalid HTTPS URL"⟩
  | some (scheme, host) =>
    if sameLetters scheme (ascii "https") = false then
      .error ⟨1, "Refusing non-HTTPS DAV destination"⟩
    else if hostHasSuffix host suffix = false then
      .error ⟨1, "Refusing DAV credentials for unexpected host"⟩
    else .ok ()

/-! ## The headers -/

/-- `curl_slist_append`, null when it fails. -/
def slistAppend (fails : Bool) (headers : List Bytes) (line : Bytes) : Option (List Bytes) :=
  if fails then none else some (headers ++ [line])

def destinationLine (destination : Bytes) : Bytes := ascii "Destination: " ++ destination

def overwriteLine : Bytes := ascii "Overwrite: F"

def ifMatchLine (etag : Bytes) : Bytes := ascii "If-Match: " ++ etag

def ifNoneMatchLine : Bytes := ascii "If-None-Match: *"

def acceptLine : Bytes := ascii "Accept: application/xml, text/vcard, text/calendar, */*"

/-- `Depth`, in a buffer of 32 bytes. The list that the append returns is not looked at. -/
def depthHeader (fails : Alloc → Bool) (q : Request) : List Bytes :=
  match q.depth with
  | none => []
  | some depth => (slistAppend (fails .depth) [] ((ascii "Depth: " ++ depth).take 31)).getD []

/-- `Destination` and `Overwrite`. The lists that the two appends return are not looked at. -/
def destinationHeaders (fails : Alloc → Bool) (q : Request) (headers : List Bytes) :
    Except RCError (List Bytes) :=
  match q.destination with
  | none => .ok headers
  | some destination =>
    if fails .destinationText then .error ⟨1, "Out of memory setting MOVE destination"⟩
    else
      let headers :=
        (slistAppend (fails .destination) headers (destinationLine destination)).getD []
      .ok ((slistAppend (fails .overwrite) headers overwriteLine).getD [])

/-- `Content-Type`, cut at 140 bytes. The list that the append returns is not looked at. -/
def contentTypeHeader (fails : Alloc → Bool) (q : Request) (headers : List Bytes) : List Bytes :=
  match q.contentType with
  | none => headers
  | some type =>
    (slistAppend (fails .contentType) headers (ascii "Content-Type: " ++ type.take 140)).getD []

/-- The precondition. -/
def preconditionHeader (fails : Alloc → Bool) (q : Request) (headers : List Bytes) :
    Except RCError (List Bytes) :=
  match q.ifMatch with
  | some etag =>
    if fails .ifMatchText then .error ⟨1, "Out of memory setting write precondition"⟩
    else match slistAppend (fails .ifMatch) headers (ifMatchLine etag) with
      | none => .error ⟨1, "Could not set write precondition"⟩
      | some headers => .ok headers
  | none =>
    if q.ifNoneMatch then
      match slistAppend (fails .ifNoneMatch) headers ifNoneMatchLine with
      | none => .error ⟨1, "Could not set create precondition"⟩
      | some headers => .ok headers
    else .ok headers

/-- All headers of a request. -/
def buildHeaders (fails : Alloc → Bool) (q : Request) : Except RCError (List Bytes) := do
  let headers ← destinationHeaders fails q (depthHeader fails q)
  let headers ← preconditionHeader fails q (contentTypeHeader fails q headers)
  match slistAppend (fails .accept) headers acceptLine with
  | none => .error ⟨1, "Could not set DAV request headers"⟩
  | some headers => .ok headers

/-! ## The handle -/

/-- The options of a libcurl handle that say what is transmitted. -/
structure Handle where
  url : Bytes
  customRequest : Bytes
  username : Bytes
  password : Bytes
  httpHeader : List Bytes
  postFields : Buf
  postFieldSize : Nat

/-- `curl_easy_init`. -/
def Handle.fresh : Handle := ⟨[], [], [], [], [], .null 0, 0⟩

/-- The effect of an option that is set for the round. The other options are constants, or say how
the transfer goes and not what is transmitted. -/
def Handle.set (client : Client) (q : Request) (url : Bytes) (headers : List Bytes) (h : Handle) :
    Setting → Handle
  | .url => { h with url := url }
  | .customRequest => { h with customRequest := q.method }
  | .username => { h with username := client.username }
  | .password => { h with password := client.password }
  | .httpHeader => { h with httpHeader := headers }
  | .postFields => { h with postFields := q.body }
  | .postFieldSize => { h with postFieldSize := q.body.len }
  | _ => h

/-- What every request sets. -/
def commonSettings : List Setting :=
  [.url, .customRequest, .username, .password, .httpAuth, .caInfo, .sslVerifyPeer, .sslVerifyHost,
    .protocols, .redirProtocols, .followLocation, .noSignal, .noProgress, .xferInfoFunction,
    .connectTimeout, .timeout, .userAgent, .httpHeader, .writeFunction, .writeData,
    .headerFunction, .headerData]

def settings (q : Request) : List Setting :=
  commonSettings ++ if q.body = .null 0 then [] else [.postFields, .postFieldSize]

/-- `RC_SET_OPTION`: the first option that is refused ends the setup. -/
def configure (refuses : Setting → Option (Int × String)) (client : Client) (q : Request)
    (url : Bytes) (headers : List Bytes) (h : Handle) (s : Setting) : Except RCError Handle :=
  match refuses s with
  | some (code, text) => .error ⟨code, "Could not configure DAV request: " ++ text⟩
  | none => .ok (h.set client q url headers s)

/-- What `curl_easy_perform` transmits. -/
def Handle.sent (h : Handle) : Sent where
  url := h.url
  method := h.customRequest
  username := h.username
  password := h.password
  headers := h.httpHeader
  body := h.postFields.column.map fun b => b.take h.postFieldSize

/-! ## The rounds -/

/-- Everything before the transfer. -/
def prepare (urls : URLs) (client : Client) (w : Weather) (q : Request) (n : Nat) (url : Bytes) :
    Except RCError Handle := do
  validateDestination urls client.allowedHostSuffix (w.fails n .currentURL) url
  if w.fails n .handle then .error ⟨1, "Could not create libcurl handle"⟩
  else do
    let headers ← buildHeaders (w.fails n) q
    (settings q).foldlM (configure (w.refuses n) client q url headers) .fresh

def cancelled : RCError := ⟨-9999, "Shutdown requested"⟩

/-- The response of a round, whose effective URL is its own when libcurl names none. -/
def Weather.received (w : Weather) (n : Nat) (url : Bytes) : Response :=
  let effectiveURL := if w.fails n .effectiveURL then none
    else some ((w.transfer n).response.effectiveURL.getD url)
  { (w.transfer n).response with effectiveURL := effectiveURL }

/-- A redirect that a request without precondition follows. -/
def redirects (q : Request) (r : Response) : Bool :=
  q.ifMatch.isNone && !q.ifNoneMatch &&
    (r.statusCode = 301 || r.statusCode = 302 || r.statusCode = 307 || r.statusCode = 308)

/-- The URL of the next round, when there may be one. -/
def redirectURL (urls : URLs) (fails : Bool) (left : Nat) (r : Response) : Except RCError Bytes :=
  match r.location with
  | none => .error ⟨1, "Invalid or excessive DAV redirects"⟩
  | some location =>
    if left = 0 then .error ⟨1, "Invalid or excessive DAV redirects"⟩
    else match if fails then none else urls.resolve r.effectiveURL location with
      | none => .error ⟨1, "Could not resolve DAV href"⟩
      | some next => .ok next

/-- The loop of `RCRequest`: the rounds that are left, the number of this one and its URL. Answers
the requests transmitted and the result. -/
def rounds (urls : URLs) (client : Client) (w : Weather) (q : Request) :
    Nat → Nat → Bytes → List Sent × Except RCError Response
  | 0, _, _ => ([], .error ⟨1, "Too many DAV redirects"⟩)
  | left + 1, n, url =>
    match prepare urls client w q n url with
    | .error e => ([], .error e)
    | .ok handle =>
      if (w.stopped n).1 then ([], .error cancelled)
      else
        let t := w.transfer n
        let r := w.received n url
        if (w.stopped n).2 then ([handle.sent], .error cancelled)
        else match t.failure with
          | some (code, text) =>
            ([handle.sent], .error ⟨code, if t.exceededLimit then
              "HTTP response exceeded size limit" else "DAV request failed: " ++ text⟩)
          | none =>
            if redirects q r then
              match redirectURL urls (w.fails n .redirectURL) left r with
              | .error e => ([handle.sent], .error e)
              | .ok next =>
                let rest := rounds urls client w q left (n + 1) next
                (handle.sent :: rest.1, rest.2)
            else ([handle.sent], .ok r)

/-- `RC_HTTP_REDIRECT_LIMIT`. -/
def redirectLimit : Nat := 5

/-- `RCRequest`. -/
def performRequest (urls : URLs) (client : Client) (w : Weather) (q : Request) :
    List Sent × Except RCError Response :=
  match if w.fails 0 .copyURL then none else q.url with
  | none => ([], .error ⟨1, "Out of memory copying request URL"⟩)
  | some url => rounds urls client w q (redirectLimit + 1) 0 url

/-! ## The entry points -/

/-- The methods that change the server. -/
def mutations : List Bytes := [ascii "PUT", ascii "DELETE", ascii "MOVE", ascii "MKCALENDAR"]

/-- `LONG_MAX` of the 32-bit targets. -/
def longMax : Nat := 2147483647

/-- The checks of `RCHTTPClientConditionalRequest`. -/
def validConditional (method : Bytes) (body : Buf) (ifMatch : Option Bytes) (ifNoneMatch : Bool) :
    Bool :=
  body.len ≤ longMax &&
  (method = ascii "PUT" || method = ascii "DELETE" || method = ascii "MKCALENDAR") &&
  (if ifMatch.isSome then etagIsStrong ifMatch && !ifNoneMatch else ifNoneMatch) &&
  (method ≠ ascii "MKCALENDAR" || (ifMatch.isNone && ifNoneMatch)) &&
  (method ≠ ascii "DELETE" || (ifMatch.isSome && body = .null 0)) &&
  (method = ascii "DELETE" || (body.column.isSome && body.len ≠ 0))

/-- The checks of `RCHTTPClientMove`. -/
def validMove (urls : URLs) (client : Client) (fails : Bool)
    (source destination etag : Option Bytes) : Bool :=
  match source, destination with
  | some _, some destination =>
    etagIsStrong etag && !destination.contains 0x0d && !destination.contains 0x0a &&
      (validateDestination urls client.allowedHostSuffix fails destination).isOk
  | _, _ => false

/-- A call of the client. -/
inductive Call
  /-- `RCHTTPClientRequest`. -/
  | request (method : Bytes) (url depth contentType : Option Bytes) (body : Buf)
  /-- `RCHTTPClientConditionalRequest`. -/
  | conditional (method url type : Option Bytes) (body : Buf) (ifMatch : Option Bytes)
      (ifNoneMatch : Bool)
  /-- `RCHTTPClientMove`. -/
  | move (source destination etag : Option Bytes)

def Call.perform (urls : URLs) (client : Client) (w : Weather) :
    Call → List Sent × Except RCError Response
  | request method url depth contentType body =>
    if mutations.any (sameLetters method) then
      ([], .error ⟨1, "DAV mutations require a conditional request"⟩)
    else performRequest urls client w ⟨method, url, depth, contentType, body, none, false, none⟩
  | conditional method url type body ifMatch ifNoneMatch =>
    match method with
    | none => ([], .error ⟨1, "Invalid conditional DAV mutation"⟩)
    | some method =>
      if validConditional method body ifMatch ifNoneMatch then
        performRequest urls client w ⟨method, url, none, type, body, ifMatch, ifNoneMatch, none⟩
      else ([], .error ⟨1, "Invalid conditional DAV mutation"⟩)
  | move source destination etag =>
    if validMove urls client (w.fails 0 .destinationURL) source destination etag then
      performRequest urls client w
        ⟨ascii "MOVE", source, none, none, .null 0, etag, false, destination⟩
    else ([], .error ⟨1, "Invalid conditional MOVE"⟩)

end Dav
