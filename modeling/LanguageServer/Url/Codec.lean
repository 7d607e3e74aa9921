import LanguageServer.Json.Record
import LanguageServer.Url.Parser

/-! Paths and URLs as JSON strings. -/
namespace LanguageServer

def Path.toJson (p : Path) : Json := .string p.text

def Path.ofJson? (j : Json) : Option Path := j.string?.map Path.mk

def Url.toJson (u : Url) : Json := .string u.text

def Url.ofJson? (j : Json) : Option Url := j.string?.bind Url.parse?

end LanguageServer
