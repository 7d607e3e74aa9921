import LanguageServer.Path
import LanguageServer.Text.Utf8
import LanguageServer.Url.Percent

/-! URLs in their serialised parts, and the file that a URL names. -/
namespace LanguageServer

/-- The parts of a URL, each as it is written. -/
structure Url where
  scheme : String
  /-- What stands after the two slashes; `none` when there are no two slashes. -/
  authority : Option String
  /-- The path; it begins with a slash unless it is opaque or empty. -/
  path : String
  query : Option String
  fragment : Option String
  deriving DecidableEq, Inhabited, Hashable

namespace Url

/-- The host in an authority, without the name of a user and without a port. -/
def hostOf (authority : String) : String :=
  let cs := authority.toList
  let cs := (cs.reverse.takeWhile (· ≠ '@')).reverse
  String.ofList (match cs with
    | '[' :: rest => '[' :: rest.takeWhile (· ≠ ']') ++ [']']
    | cs => cs.takeWhile (· ≠ ':'))

/-- The serialised URL. A path that could be taken for an authority is kept apart by `/.`. -/
def text (u : Url) : String :=
  let authority := match u.authority with
    | some a => "//" ++ a
    | none => if "//".toList.isPrefixOf u.path.toList then "/." else ""
  let query := match u.query with
    | some q => "?" ++ q
    | none => ""
  let fragment := match u.fragment with
    | some f => "#" ++ f
    | none => ""
  u.scheme ++ ":" ++ authority ++ u.path ++ query ++ fragment

/-- URLs in the order of their text. -/
def le (u v : Url) : Bool := !(v.text < u.text)

/-- The segments of the path; none when the path is opaque. -/
def segments? (u : Url) : Option (List String) :=
  match u.path.toList with
  | '/' :: rest => some ((Path.splitSlashes rest).map String.ofList)
  | _ => none

/-- The file a URL names: its segments decoded. A URL with a host other than `localhost` names
none. A path that ends in a drive gets a slash. -/
def toFilePath? (u : Url) : Option Path := do
  let segments ← u.segments?
  let host := (u.authority.map hostOf).getD ""
  if host ≠ "" ∧ host ≠ "localhost" then none
  let bytes := segments.flatMap fun s => '/'.toNat.toUInt8 :: Percent.decode s.toList
  let text := Text.Utf8.lossyText bytes
  let drive := match text.toList.reverse with
    | c :: d :: _ :: _ => (c = ':' || c = '|') && d.isAlpha
    | _ => false
  return ⟨if drive then text ++ "/" else text⟩

/-- The URL of an absolute path: its names, encoded. -/
def ofFilePath? (p : Path) : Option Url :=
  if p.isAbsolute then
    let segment (c : Path.Component) : List Char := match c with
      | .root => []
      | .here => ['.']
      | .parent => ['.', '.']
      | .name n => Percent.encode Percent.isSegment n.toList
    let path := (p.components.drop 1).flatMap fun c => '/' :: segment c
    some ⟨"file", some "", if path.isEmpty then "/" else String.ofList path, none, none⟩
  else none

end Url
end LanguageServer
