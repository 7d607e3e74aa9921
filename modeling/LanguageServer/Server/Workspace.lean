import LanguageServer.Server.Basic

/-! Listing the files of the workspace. -/
namespace LanguageServer.Server

def workspaceLens : Lens Server Workspace := ⟨(·.workspace), fun w s => { s with workspace := w }⟩

/-- Lists every root whose listing has expired, publishes all files and counts them. -/
def scan : Job Nat := do
  let roots ← Task.read (·.workspace.roots)
  let files ← Task.repeatFrom (roots, ([] : List Path)) fun (roots, files) => do
    match roots with
    | [] => return .inr files
    | root :: roots =>
      match ← timed workspaceLens (Workspace.listing · root) with
      | some listing => return .inl (roots, files ++ listing)
      | none =>
        let listing ← Task.read (·.around.files.sourcesBelow root)
        Task.giveWay
        timed workspaceLens fun now w => ((), w.keep now root listing)
        return .inl (roots, files ++ listing)
  Task.update (workspaceLens.lift (Workspace.publish files))

/-- Takes new roots and lists them. -/
def scanRoots (roots : List Path) : Job Nat := do
  Task.modify (workspaceLens.modify (Workspace.setRoots roots))
  scan

end LanguageServer.Server
