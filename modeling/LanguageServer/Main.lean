import LanguageServer.CommandLine

/-! The program on the command line. It has no means to start another program, so that a runtime
is never found; everything before that is done on the file that the arguments name. -/

namespace LanguageServer.CommandLine

/-- The working directory with the file at a path in it, if it can be read. -/
def treeWith (path : String) : IO FileTree := do
  let here := (← IO.currentDir).toString
  let tree := FileTree.empty.write ⟨here⟩ .directory
  let tree := { tree with working := FileTree.placeOf ⟨here⟩ }
  let at_ : Path := (Path.mk here).join ⟨path⟩
  try
    let bytes ← IO.FS.readBinFile path
    return tree.write at_ (.file bytes.toList 0)
  catch e => match e with
    | .inappropriateType .. => return tree.write at_ .directory
    | _ => return tree

/-- The file that the arguments name, if they name one that may be looked at. -/
def treeFor (args : List String) : IO FileTree :=
  match Order.ofArguments args with
  | .analyze path _ => if isSafe path then treeWith path else pure .empty
  | _ => pure .empty

def environment : IO (List (String × String)) := do
  let names := [Configuration.moduleVariable, Configuration.runtimeVariable,
    Configuration.analyzerVariable]
  let values ← names.mapM fun n => do return (← IO.getEnv n).map (n, ·)
  return values.filterMap id

/-- Reads to the end of the input. -/
partial def drain (input : IO.FS.Stream) : IO Unit := do
  if (← input.read 4096).isEmpty then return
  drain input

end LanguageServer.CommandLine

open LanguageServer

/-- Analyses a file, or takes in what an editor says until it says no more. -/
def main (args : List String) : IO UInt32 := do
  let args := "pike-lsp" :: args
  let vars ← CommandLine.environment
  let c := Configuration.ofEnvironment (vars.lookup ·)
  let around : Surroundings :=
    ⟨← CommandLine.treeFor args, vars, .ofConfiguration c, [], 0, none⟩
  let out := CommandLine.outcome ((CommandLine.result? (.new around c) args).getD (.ok none))
  if CommandLine.Order.ofArguments args = .serve then CommandLine.drain (← IO.getStdin)
  (← IO.getStdout).putStr out.stdout
  (← IO.getStderr).putStr out.stderr
  return out.code.toUInt32
