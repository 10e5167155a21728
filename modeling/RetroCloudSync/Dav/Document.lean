import RetroCloudSync.Journal.Tables
import Mathlib.Data.List.Infix

/-!
# Multistatus documents

What `RCDAVClient.c` reads of the documents that libxml2 parsed: elements by name and namespace,
their text, the properties that a `propstat` reports as found, and the code of a status line.
Comments and attributes are never read and are left out of the tree.
-/

set_option autoImplicit false

namespace Dav

open Journal

/-- `xmlNode`: an element with the `href` of its namespace, or text. -/
inductive Node
  | element (name : Bytes) (space : Option Bytes) (children : List Node)
  | text (content : Bytes)

/-- `xmlDoc`: whether it has a DTD, and its root. -/
structure Document where
  dtd : Bool
  root : Node

/-- `kDAVNamespace`. -/
def davNamespace : Bytes := ascii "DAV:"

namespace Node

def children : Node → List Node
  | element _ _ children => children
  | text _ => []

/-- `RCNodeIs`, for an element of the namespace `DAV:`. -/
def is (name : Bytes) : Node → Bool
  | element n (some space) _ => n = name && space = davNamespace
  | _ => false

/-- `RCFindChild`. -/
def findChild (parent : Node) (name : Bytes) : Option Node := parent.children.find? (is name)

mutual

/-- `RCFindDescendant`: the first one, before what comes after its parent. -/
def findDescendant (name : Bytes) : Node → Option Node
  | element _ _ children => findAmong name children
  | text _ => none

def findAmong (name : Bytes) : List Node → Option Node
  | [] => none
  | child :: rest =>
    if child.is name then some child
    else match findDescendant name child with
      | some found => some found
      | none => findAmong name rest

end

mutual

/-- `xmlNodeGetContent`, as `RCNodeText` copies it. -/
def content : Node → Bytes
  | element _ _ children => contents children
  | text content => content

def contents : List Node → Bytes
  | [] => []
  | child :: rest => child.content ++ contents rest

end

/-- `RCNodeText` of a child, none when there is no such child. -/
def childText (parent : Node) (name : Bytes) : Option Bytes := (parent.findChild name).map content

/-- `RCPropertyStatusIsSuccessful`. -/
def successful (propstat : Node) : Bool :=
  match propstat.childText (ascii "status") with
  | some status => decide (ascii " 200 " <:+: status)
  | none => false

/-- `RCSuccessfulProperty`: the first one in a `propstat` that succeeded. -/
def successfulProperty (response : Node) (name : Bytes) : Option Node :=
  response.children.findSome? fun propstat =>
    if propstat.is (ascii "propstat") && propstat.successful then
      (propstat.findChild (ascii "prop")).bind fun prop => prop.findChild name
    else none

end Node

/-! ## Status lines -/

/-- `isspace` in the C locale. -/
def isSpace (c : UInt8) : Bool := c = 0x20 || (0x09 ≤ c && c ≤ 0x0d)

def isDigit (c : UInt8) : Bool := 0x30 ≤ c && c ≤ 0x39

def decimal (digits : Bytes) : Int := digits.foldl (fun n c => 10 * n + (c.toNat - 0x30)) 0

/-- `%d` of `sscanf`, saturating. -/
def scanInt (s : Bytes) : Option Int :=
  let (negative, rest) := match s with
    | 0x2d :: rest => (true, rest)
    | 0x2b :: rest => (false, rest)
    | rest => (false, rest)
  match rest.takeWhile isDigit with
  | [] => none
  | digits =>
    let n := if negative then - decimal digits else decimal digits
    some (max (-2147483648) (min 2147483647 n))

/-- `sscanf(status, "HTTP/%*s %d", &code)`, where `code` was zero. -/
def scanStatus (status : Bytes) : Int :=
  if ascii "HTTP/" <+: status then
    let version := (status.drop 5).dropWhile isSpace
    if version.takeWhile (fun c => !isSpace c) = [] then 0
    else (scanInt ((version.dropWhile fun c => !isSpace c).dropWhile isSpace)).getD 0
  else 0

example : scanStatus (ascii "HTTP/1.1 507 Insufficient Storage") = 507 := by decide +kernel

end Dav
