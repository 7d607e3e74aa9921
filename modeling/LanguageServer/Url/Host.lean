import LanguageServer.Text.Utf8
import LanguageServer.Url.Address
import LanguageServer.Url.Domain
import LanguageServer.Url.Percent

/-! Hosts: the names of domains, and addresses. -/
namespace LanguageServer.Url.Host

/-- What stands between brackets is an address of version 6. -/
def bracketed? (rest : List Char) : Option (List Char) :=
  if rest.getLast? = some ']' then Address.version6? rest.dropLast else none

/-- A host of a URL whose scheme is special, as it is written. -/
def special? (cs : List Char) : Option (List Char) :=
  match cs with
  | '[' :: rest => bracketed? rest
  | cs => do
    let name ← Text.Utf8.text? (Percent.decode cs)
    let ascii ← Domain.toAscii? name.toList
    if ascii.isEmpty then none
    else if Address.endsInNumber ascii then Address.version4? ascii
    else some ascii

/-- The punctuation that no host may hold. -/
def isForbidden (c : Char) : Bool :=
  [' ', '#', '/', ':', '<', '>', '?', '@', '[', '\\', ']', '^', '|', '\x00', '\t', '\n', '\r'].contains c

/-- A host of any other URL. -/
def verbatim? (cs : List Char) : Option (List Char) :=
  match cs with
  | '[' :: rest => bracketed? rest
  | cs => if cs.any isForbidden then none else some (Percent.encode Percent.isControl cs)

end LanguageServer.Url.Host
