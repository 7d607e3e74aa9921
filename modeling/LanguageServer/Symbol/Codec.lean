import LanguageServer.Symbol.Basic

/-! Symbols as JSON: an object whose `kind` tells which other fields belong to it. -/
namespace LanguageServer.Symbol

/-- The kinds in the order in which a number may stand for them. -/
def labels : List String :=
  ["function", "method", "class", "module", "enum", "variable", "constant", "typedef", "inherit"]

/-- The kind that a tag names, by its label or by its place among the labels. -/
def label? : Json → Option String
  | .string s => if labels.contains s then some s else none
  | .int n => if 0 ≤ n then labels[n.toNat]? else none
  | _ => none

def optionalText (members : List (String × Json)) (name : String) : Option (Option String) :=
  Json.optional Json.string? (members.lookup name)

mutual

def toJson : Symbol → Json
  | .scope h kind children =>
    let children := ("children", Json.array (toJsons children))
    let shared := [("name", Json.string h.name), ("range", h.range.toJson),
      ("selection_range", h.selection.toJson)]
    match kind with
    | .function signature isExternal => .object (children :: ("is_extern", .bool isExternal) ::
        ("kind", .string "function") :: shared ++ [("signature", .ofOption .string signature)])
    | .method signature => .object (children :: ("kind", .string "method") :: shared ++
        [("signature", .ofOption .string signature)])
    | .classScope => .object (children :: ("kind", .string "class") :: shared)
    | .moduleScope => .object (children :: ("kind", .string "module") :: shared)
    | .enumScope => .object (children :: ("kind", .string "enum") :: shared)
  | .leaf h kind =>
    let shared := [("name", Json.string h.name), ("range", h.range.toJson),
      ("selection_range", h.selection.toJson)]
    match kind with
    | .variable t => .object (("kind", .string "variable") :: shared ++
        [("type_name", .ofOption .string t)])
    | .constant t => .object (("kind", .string "constant") :: shared ++
        [("type_name", .ofOption .string t)])
    | .typedef t => .object (("kind", .string "typedef") :: shared ++
        [("type_name", .ofOption .string t)])
    | .inheritance target => .object (("kind", .string "inherit") :: shared ++
        [("target", .string target)])

def toJsons : List Symbol → List Json
  | [] => []
  | s :: rest => toJson s :: toJsons rest

end

mutual

/-- Reads a symbol; a field that does not belong to its kind may hold anything. -/
def ofJson? : Json → Option Symbol
  | .object members => do
    let name ← Json.required Json.string? (members.lookup "name")
    let range ← Json.required Range.ofJson? (members.lookup "range")
    let selection ← Json.required Range.ofJson? (members.lookup "selection_range")
    let label ← Json.required label? (members.lookup "kind")
    let h : Heading := ⟨name, range, selection⟩
    if label = "function" then
      let signature ← optionalText members "signature"
      let isExternal ← Json.defaulting Json.bool? false (members.lookup "is_extern")
      some (.scope h (.function signature isExternal) (← childrenIn? members))
    else if label = "method" then
      let signature ← optionalText members "signature"
      some (.scope h (.method signature) (← childrenIn? members))
    else if label = "class" then some (.scope h .classScope (← childrenIn? members))
    else if label = "module" then some (.scope h .moduleScope (← childrenIn? members))
    else if label = "enum" then some (.scope h .enumScope (← childrenIn? members))
    else if label = "variable" then some (.leaf h (.variable (← optionalText members "type_name")))
    else if label = "constant" then some (.leaf h (.constant (← optionalText members "type_name")))
    else if label = "typedef" then some (.leaf h (.typedef (← optionalText members "type_name")))
    else some (.leaf h (.inheritance (← Json.required Json.string? (members.lookup "target"))))
  | _ => none

/-- The symbols under `children`, none when there is no such member. -/
def childrenIn? : List (String × Json) → Option (List Symbol)
  | [] => some []
  | (n, j) :: rest => if n = "children" then listed? j else childrenIn? rest

def listed? : Json → Option (List Symbol)
  | .array items => ofJsons? items
  | _ => none

def ofJsons? : List Json → Option (List Symbol)
  | [] => some []
  | j :: rest => do return (← ofJson? j) :: (← ofJsons? rest)

end

end LanguageServer.Symbol
