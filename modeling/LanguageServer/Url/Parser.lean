import LanguageServer.Text.Blank
import LanguageServer.Url.Basic
import LanguageServer.Url.Host

/-! Reading a URL that stands alone. Tabs and line ends count for nothing in it, except after a
drive, which they end. -/
namespace LanguageServer.Url
open LanguageServer.Text (split stripEnds)

/-- How the rest of a URL is read, by its scheme. -/
inductive Family where
  | file
  | special
  | other
  deriving DecidableEq

def family (scheme : String) : Family :=
  if scheme = "file" then .file
  else if ["http", "https", "ws", "wss", "ftp"].contains scheme then .special
  else .other

def defaultPort (scheme : String) : Option Nat :=
  if scheme = "http" ∨ scheme = "ws" then some 80
  else if scheme = "https" ∨ scheme = "wss" then some 443
  else if scheme = "ftp" then some 21
  else none

/-- Whether a character counts for nothing. -/
def isPassedOver (c : Char) : Bool := c = '\t' || c = '\n' || c = '\r'

def visible (cs : List Char) : List Char := cs.filter (!isPassedOver ·)

/-- The first character that counts, and what follows it. -/
def next? : List Char → Option (Char × List Char)
  | [] => none
  | c :: rest => if isPassedOver c then next? rest else some (c, rest)

/-- Whether a character separates segments. -/
def isSlash (f : Family) (c : Char) : Bool := c = '/' || (c = '\\' && f ≠ .other)

def endsPath (c : Char) : Bool := c = '?' || c = '#'

/-- The letter of a drive and the mark after it. -/
def isDrive : List Char → Bool
  | [a, b] => a.isAlpha && (b = ':' || b = '|')
  | _ => false

def isDot (segment : List Char) : Bool :=
  ["." , "%2e"].contains (String.ofList (segment.map Char.toLower))

def isDoubleDot (segment : List Char) : Bool :=
  ["..", ".%2e", "%2e.", "%2e%2e"].contains (String.ofList (segment.map Char.toLower))

/-- Whether a segment begins with a drive that a backslash or nothing follows. -/
def isDriveLike (segment : List Char) : Bool :=
  isDrive (segment.take 2) && ((segment.drop 2).head?.all (· = '\\'))

/-- The path above another; what is like a drive stays. -/
def shorten : List (List Char) → List (List Char)
  | [] => []
  | segment :: rest => if isDriveLike segment then segment :: rest else rest

/-- Segments, the last first, after taking in one more; `last` says that no slash follows it. The
flag tells whether a drive came first, which leaves a file without a host. -/
def addSegment (f : Family) (done : List (List Char)) (segment : List Char) (last : Bool) :
    List (List Char) × Bool :=
  if isDoubleDot segment then (if last then [] :: shorten done else shorten done, false)
  else if isDot segment then (if last then [] :: done else done, false)
  else
    let encoded := Percent.encode Percent.isPath segment
    if f = .file ∧ done.isEmpty ∧ isDrive encoded then ([encoded.take 1 ++ [':']], true)
    else ((split '/' encoded).foldl (fun done part => part :: done) done, false)

/-- Whether a tab or a line end ends a segment, given from its end: a drive at the root of a file. -/
def endsDrive (f : Family) (done : List (List Char)) (current : List Char) : Bool :=
  f = .file && done.isEmpty && isDrive current.reverse && current.head? = some ':'

/-- Reads segments up to a question mark or a number sign; `ended` says that a slash belongs before
the next character of the segment. -/
def readSegments (f : Family) (done : List (List Char)) (drive : Bool) (current : List Char)
    (ended : Bool) : List Char → List (List Char) × Bool × List Char
  | [] =>
    let (done, d) := addSegment f done current.reverse true
    (done, drive || d, [])
  | c :: rest =>
    if isPassedOver c then readSegments f done drive current (endsDrive f done current) rest
    else if endsPath c then
      let (done, d) := addSegment f done current.reverse true
      (done, drive || d, c :: rest)
    else if isSlash f c then
      let (done, d) := addSegment f done current.reverse false
      readSegments f done (drive || d) [] false rest
    else readSegments f done drive (c :: (if ended then '/' :: current else current)) false rest

/-- The path that segments write, the last given first. -/
def joinSegments (f : Family) (done : List (List Char)) : String :=
  let segments := done.reverse
  let segments := if f = .file then
      match segments.dropWhile List.isEmpty with
      | [] => [[]]
      | s => s
    else segments
  String.ofList (segments.flatMap ('/' :: ·))

/-- The path that stands at the front, whether a drive begins it, and what follows it. -/
def pathOf (f : Family) (cs : List Char) : String × Bool × List Char :=
  let (done, drive, rest) := readSegments f [] false [] false cs
  (joinSegments f done, drive, rest)

/-- The path after an authority, and what follows it. -/
def readPath (f : Family) (cs : List Char) : String × Bool × List Char :=
  match next? cs with
  | some (c, rest) =>
    if isSlash f c then pathOf f rest
    else if f = .other ∧ endsPath c then ("", false, c :: rest)
    else pathOf f (c :: rest)
  | none => (if f = .other then "" else "/", false, [])

/-- What follows a path: a query, then a fragment. -/
def readTail (f : Family) (cs : List Char) : Option String × Option String :=
  let cs := visible cs
  let fragment (cs : List Char) : Option String := match cs with
    | '#' :: rest => some (String.ofList (Percent.encode Percent.isFragment rest))
    | _ => none
  match cs with
  | '?' :: rest =>
    let set := if f = .other then Percent.isQuery else Percent.isSpecialQuery
    (some (String.ofList (Percent.encode set (rest.takeWhile (· ≠ '#')))),
      fragment (rest.dropWhile (· ≠ '#')))
  | cs => (none, fragment cs)

def endsAuthority (f : Family) (c : Char) : Bool := isSlash f c || endsPath c

/-- What stands before and after the last at sign. -/
def cutLastAt (cs : List Char) : Option (List Char × List Char) :=
  if cs.contains '@' then
    some (((cs.reverse.dropWhile (· ≠ '@')).drop 1).reverse, (cs.reverse.takeWhile (· ≠ '@')).reverse)
  else none

/-- The name and the password of a user, an empty password left out. -/
def userinfo (cs : List Char) : List Char :=
  let encode := Percent.encode Percent.isUserinfo
  let name := encode (cs.takeWhile (· ≠ ':'))
  let password := (cs.dropWhile (· ≠ ':')).drop 1
  let body := if password.isEmpty then name else name ++ ':' :: encode password
  if body.isEmpty then [] else body ++ ['@']

/-- The characters of a host: up to a colon that no bracket encloses. -/
def hostLength : Bool → List Char → Nat
  | _, [] => 0
  | inside, c :: rest =>
    if c = ':' ∧ ¬ inside then 0
    else 1 + hostLength (if c = '[' then true else if c = ']' then false else inside) rest

/-- The port after a host, the port of the scheme left out, and what follows it: nothing, or a
backslash where one begins a path. -/
def port? (scheme : String) (cs : List Char) : Option (List Char × List Char) :=
  let digits := (cs.drop 1).takeWhile Char.isDigit
  let rest := (cs.drop 1).dropWhile Char.isDigit
  let n := digits.foldl (fun n d => 10 * n + (d.toNat - 48)) 0
  if 65535 < n ∨ ¬ rest.head?.all (· = '\\') then none
  else if digits.isEmpty ∨ defaultPort scheme = some n then some ([], rest)
  else some (':' :: (toString n).toList, rest)

/-- The authority that the characters up to a slash write, and those that do not belong to it. An
at sign without a name before it needs a host after it, unless the URL ends there. -/
def authority? (scheme : String) (f : Family) (atEnd : Bool) (cs : List Char) :
    Option (String × List Char) := do
  let (user, rest) ← match cutLastAt cs with
    | some ([], []) => if atEnd then some ([], []) else none
    | some (user, rest) => some (userinfo user, rest)
    | none => some ([], cs)
  let n := hostLength false rest
  let (host, after) := (rest.take n, rest.drop n)
  if host.isEmpty ∧ (f = .special ∨ ¬ after.isEmpty ∨ ¬ user.isEmpty) then none
  let host ← if f = .other then (if host.isEmpty then some [] else Host.verbatim? host)
    else Host.special? host
  let (port, rest) ← port? scheme after
  return (String.ofList (user ++ host ++ port), rest)

/-- What follows two slashes. -/
def afterSlashes (scheme : String) (f : Family) (cs : List Char) : Option Url := do
  let n := (cs.takeWhile fun c => !endsAuthority f c).length
  let (authority, rest) ← authority? scheme f (cs.drop n).isEmpty (visible (cs.take n))
  let (path, _, rest) := readPath f (rest ++ cs.drop n)
  let (query, fragment) := readTail f rest
  return ⟨scheme, some authority, path, query, fragment⟩

/-- A file below the root; with two slashes before its host the slash of its path has a segment
before it, which is empty. -/
def localFile (cs : List Char) : Url :=
  let (path, _, rest) := pathOf .file cs
  let (query, fragment) := readTail .file rest
  ⟨"file", some "", path, query, fragment⟩

/-- What follows `file://`: a host, unless there is a drive in its place. -/
def hostedFile? (cs : List Char) : Option Url := do
  let n := (cs.takeWhile fun c => !endsAuthority .file c).length
  let host := visible (cs.take n)
  if isDrive host then return localFile cs
  else if host.isEmpty then return localFile (cs.drop n)
  else
    let host ← Host.special? host
    if host = "localhost".toList then return localFile (cs.drop n)
    else
      let (path, drive, rest) := readPath .file (cs.drop n)
      let (query, fragment) := readTail .file rest
      return ⟨"file", some (if drive then "" else String.ofList host), path, query, fragment⟩

/-- What follows `file:`. -/
def readFile? (cs : List Char) : Option Url :=
  match next? cs with
  | some (a, rest) =>
    if isSlash .file a then
      match next? rest with
      | some (b, more) => if isSlash .file b then hostedFile? more else some (localFile rest)
      | none => some (localFile rest)
    else some (localFile cs)
  | none => some (localFile cs)

/-- A URL with neither slashes nor a special scheme: a path, or text that is no path. -/
def readOther (scheme : String) (cs : List Char) : Url :=
  match cs with
  | '/' :: rest =>
    let (path, _, rest) := pathOf .other rest
    let (query, fragment) := readTail .other rest
    ⟨scheme, none, path, query, fragment⟩
  | cs =>
    let n := (cs.takeWhile fun c => !endsPath c).length
    let (query, fragment) := readTail .other (cs.drop n)
    ⟨scheme, none, String.ofList (Percent.encode Percent.isControl (cs.take n)), query, fragment⟩

/-- The scheme in lower case and what follows its colon; the letters so far are given from the
last. -/
def readScheme? (done : List Char) : List Char → Option (String × List Char)
  | [] => none
  | c :: rest =>
    if isPassedOver c then readScheme? done rest
    else if c = ':' then
      if done.isEmpty then none else some (String.ofList done.reverse, rest)
    else if c.isAlpha ∨ (¬ done.isEmpty ∧ (c.isDigit ∨ ['+', '-', '.'].contains c)) then
      readScheme? (c.toLower :: done) rest
    else none

/-- The URL that a text writes; `none` when it writes none or one that needs another to stand on. -/
def parse? (s : String) : Option Url := do
  let (scheme, rest) ← readScheme? [] (stripEnds (fun c => c.toNat ≤ 32) s.toList)
  match family scheme with
  | .file => readFile? rest
  | .special => afterSlashes scheme .special (rest.dropWhile fun c => isPassedOver c || isSlash .special c)
  | .other =>
    match visible rest with
    | '/' :: '/' :: rest => afterSlashes scheme .other rest
    | rest => return readOther scheme rest

end LanguageServer.Url
