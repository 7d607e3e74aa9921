import LanguageServer.Analyzer.Locate
import LanguageServer.Configuration
import LanguageServer.Failure
import LanguageServer.Text.Quoted

/-! How analysis processes come into being. -/
namespace LanguageServer.Analyzer

/-- The program of the process: a runtime, what it runs, and where it looks for modules. -/
structure Program where
  runtime : Path
  script : Option Path
  modulePath : Option Path
  deriving DecidableEq, Inhabited

inductive Launcher where
  /-- A process that follows a script and is always there, unless a failure is given instead. -/
  | scripted (refusal : Option Failure)
  | program (p : Program)
  deriving DecidableEq, Inhabited

/-- A process to be run: the place of its program, and what the program is told. -/
structure Launch where
  runtime : Option Path
  script : Option Path
  environment : List (String × String)
  deriving DecidableEq, Inhabited

namespace Launcher

def ofConfiguration (c : Configuration) : Launcher :=
  .program ⟨c.runtime, c.analyzerScript, c.moduleOverride⟩

def quotedPath (p : Path) : String := Text.Quoted.encode p.text

def optionalPath : Option Path → String
  | none => "None"
  | some p => "Some(" ++ quotedPath p ++ ")"

def label : Launcher → String
  | .scripted _ => "Scripted"
  | .program p => "ProcessLauncher \x7b runtime: " ++ quotedPath p.runtime ++ ", analyzer_script: " ++
      optionalPath p.script ++ ", module_path: " ++ optionalPath p.modulePath ++ " \x7d"

/-- The longest argument that a program can be given, in bytes. -/
def longestArgument : Nat := 131071

/-- What the system says when it cannot start a program that is there. -/
def spawnFault? (files : FileTree) (runtime : Path) (p : Program) : Option String :=
  let told := p.script.toList.map Path.text ++
    p.modulePath.toList.map fun m => Configuration.moduleVariable ++ "=" ++ m.text
  if told.any (·.toList.contains '\x00') then some "nul byte found in provided data"
  else if !files.isExecutable runtime then some "Permission denied (os error 13)"
  else if told.any (longestArgument < ·.utf8ByteSize) then some "Argument list too long (os error 7)"
  else none

/-- The process that a launcher starts, or why it starts none. -/
def launch (l : Launcher) (files : FileTree) (environment : List (String × String)) :
    Except Failure Launch :=
  match l with
  | .scripted none => .ok ⟨none, none, environment⟩
  | .scripted (some f) => .error f
  | .program p =>
    match locate? files p.runtime (environment.lookup "PATH") with
    | none => .error (.unavailable ("Pike runtime '" ++ p.runtime.text ++ "' not found"))
    | some runtime =>
      match spawnFault? files runtime p with
      | some fault => .error (.unavailable ("failed to spawn '" ++ runtime.text ++ "': " ++ fault))
      | none =>
        let environment := match p.modulePath with
          | some m => (Configuration.moduleVariable, m.text) ::
              environment.filter (·.1 ≠ Configuration.moduleVariable)
          | none => environment
        .ok ⟨some runtime, p.script, environment⟩

end Launcher
end LanguageServer.Analyzer
