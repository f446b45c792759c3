/-
This file reads URLs and writes the targets of HTTP requests. A URL is taken
apart into its scheme, its authority, its path and its query; the fragment, which
is nothing to a service, is dropped, and an empty path is the root. Blanks,
controls and a few marks have to be escaped in a URL, and a text in which they
are not is no URL.
-/

import ListQuery.Text.Percent

namespace ListQuery

/-- A URL without its fragment. One that starts with its path has no scheme and no authority. -/
structure Url where
  scheme : Option String
  authority : List Char
  path : List Char
  query : Option (List Char)
deriving DecidableEq

/-- Why a text is no URL. -/
inductive UrlFault where
  | tooLong
  | schemeTooLong
  | invalidCharacter
  | invalidAuthority
  /-- Neither does the path come first, nor a scheme with an authority behind it. -/
  | invalidFormat
deriving DecidableEq, Inhabited

/-- The message of a fault. -/
def UrlFault.message : UrlFault → String
  | .tooLong => "uri too long"
  | .schemeTooLong => "scheme too long"
  | .invalidCharacter => "invalid uri character"
  | .invalidAuthority => "invalid authority"
  | .invalidFormat => "invalid format"

namespace Url

/-- How many bytes a URL may have. -/
def maxSize : Nat := 65534

/-- How many characters a scheme may have. -/
def maxSchemeLength : Nat := 64

/-! ### Characters -/

/-- Whether a character may stand in a scheme. -/
def isSchemeChar (char : Char) : Bool :=
  char.isAlphanum || ['+', '-', '.', '~'].contains char

/-- Whether a character ends the authority of a URL without a fragment. -/
def endsAuthority (char : Char) : Bool :=
  char = '/' || char = '?'

/-- Whether a character may stand anywhere in an authority. -/
def isAuthorityChar (char : Char) : Bool :=
  char.isAlphanum ||
    ['!', '$', '&', '\x27', '(', ')', '*', '+', ',', '-', '.', ';', '=', '_', '~'].contains char

/-- Whether a character may stand in a path. -/
def isPathChar (char : Char) : Bool :=
  ' ' < char ∧ char ∉ ['<', '>', '\x60']

/-- Whether a character may stand in a query. -/
def isQueryChar (char : Char) : Bool :=
  ' ' < char ∧ char ∉ ['"', '<', '>']

/-! ### Authorities

An authority is a host, behind a user and an at sign or not, and before a colon and
a number or not. A host that holds colons itself stands in brackets, and escapes
are for users only. -/

/-- What the start of an authority leaves open. -/
structure AuthorityScan where
  /-- The colons outside the user and the brackets. -/
  colons : Nat := 0
  opened : Bool := false
  closed : Bool := false
  /-- Whether there is an escape outside the user and the brackets. -/
  escaped : Bool := false

/-- Reads one character of an authority. -/
def AuthorityScan.step (scan : AuthorityScan) (char : Char) : Except UrlFault AuthorityScan :=
  if char = ':' then
    if 8 ≤ scan.colons then .error .invalidAuthority
    else .ok { scan with colons := scan.colons + 1 }
  else if char = '[' then
    if scan.opened || scan.escaped then .error .invalidAuthority
    else .ok { scan with opened := true }
  else if char = ']' then
    if !scan.opened || scan.closed then .error .invalidAuthority
    else .ok { scan with colons := 0, closed := true, escaped := false }
  else if char = '@' then .ok { scan with colons := 0, escaped := false }
  else if char = '%' then .ok { scan with escaped := true }
  else if isAuthorityChar char then .ok scan
  else .error .invalidCharacter

/-- Checks an authority. -/
def checkAuthority (authority : List Char) : Except UrlFault Unit := do
  let scan ← authority.foldlM AuthorityScan.step {}
  if scan.opened ≠ scan.closed || 1 < scan.colons || scan.escaped ||
      authority.getLast? = some '@' then
    throw .invalidAuthority

/-! ### Reading -/

/-- The scheme that a text starts with, and what follows it and the mark behind it. -/
def splitScheme? (text : List Char) : Option (List Char × List Char) :=
  match text.dropWhile isSchemeChar with
  | ':' :: '/' :: '/' :: rest => some (text.takeWhile isSchemeChar, rest)
  | _ => none

/-- The URL with a scheme and an authority, and with a path and a query still to be read. -/
def ofPathAndQuery (scheme : Option String) (authority text : List Char) :
    Except UrlFault Url :=
  let path := text.takeWhile (· ≠ '?')
  let query := (text.dropWhile (· ≠ '?')).tail?
  if path.all isPathChar && (query.getD []).all isQueryChar then
    .ok { scheme, authority, path := if path.isEmpty then ['/'] else path, query }
  else .error .invalidCharacter

/-- Reads a URL. Without a scheme it has to start with its path. -/
def parse (text : String) : Except UrlFault Url := do
  if maxSize < text.utf8ByteSize then throw .tooLong
  match text.toList.takeWhile (· ≠ '#') with
  | '/' :: rest => ofPathAndQuery none [] ('/' :: rest)
  | whole =>
    match splitScheme? whole with
    | none =>
      checkAuthority (whole.takeWhile fun char => !endsAuthority char)
      throw .invalidFormat
    | some (scheme, rest) =>
      if maxSchemeLength < scheme.length then throw .schemeTooLong
      let authority := rest.takeWhile fun char => !endsAuthority char
      checkAuthority authority
      if authority.isEmpty then throw .invalidFormat
      ofPathAndQuery (some (String.ofList scheme)) authority (rest.drop authority.length)

/-- The authority of a URL without the user that may stand at its start. -/
def host (url : Url) : String :=
  String.ofList (url.authority.reverse.takeWhile (· ≠ '@')).reverse

/-! ### Parameters and targets -/

/-- A name and a value as a part of a query. -/
def assignment (plain : UInt8 → Bool) (pair : String × String) : List Char :=
  (Percent.encode plain pair.1).toList ++ '=' :: (Percent.encode plain pair.2).toList

/-- A query as it stands before further parts. Nothing separates them from an empty query or from
one that ends in a separator. -/
def openQuery (query : List Char) : List Char :=
  if query.isEmpty || query.getLast? = some '&' then query else query ++ ['&']

/-- A URL with further pairs at the end of its query. -/
def addPairs (plain : UInt8 → Bool) (url : Url) : List (String × String) → Url
  | [] => url
  | pairs =>
    let added := ['&'].intercalate (pairs.map (assignment plain))
    { url with query := some (openQuery (url.query.getD []) ++ added) }

/-- A query behind its mark. -/
def queryText : Option (List Char) → List Char
  | none => []
  | some query => '?' :: query

/-- The target of a request for a URL: its path and its query. -/
def target (url : Url) : String :=
  String.ofList (url.path ++ queryText url.query)

end Url

end ListQuery
