import Timeshift.Command.Run
import Timeshift.Disk.Snapshot

/-!
# The program

Takes what a command needs from the real disk, runs the command, and writes back the files that it
changed.
-/

open Timeshift

namespace Timeshift.Main

def usage : String :=
  "Usage: dvrindex [-c FILE] [-v] COMMAND\n\n" ++
  "  dump INDEX [--json]             print every entry of an index file\n" ++
  "  lookup INDEX TIME               resolve a time to a byte offset\n" ++
  "  verify INDEX [--json]           check for torn records and decreasing timestamps\n" ++
  "  recover INDEX                   truncate a torn trailing record\n" ++
  "  append INDEX TIME OFFSET        append one entry\n" ++
  "  segments MANIFEST [--json]      list the segments of a recording\n" ++
  "  seek MANIFEST TIME [--json]     resolve a time to a segment file and a byte offset\n" ++
  "  validate [FILE]                 check a configuration\n" ++
  "  version                         print the version"

def look (p : Path) : IO (Option Found) := do
  try
    let real ← IO.FS.realPath p.text
    match (← real.metadata).type with
    | .dir => return some .directory
    | .file => return some (.file (← IO.FS.readBinFile real).data.toList)
    | _ => return some (.file [])
  catch _ => return none

def take (d : Disk) (paths : List Path) : IO Disk :=
  (paths.flatMap Path.approaches).foldlM (fun d p => do
    match ← look p with
    | some found => return d.addFound p found
    | none => return d) d

/-- The paths that a command starts with. -/
def pathsOf (i : Invocation) (home : Option String) : List Path :=
  let configs := i.config.toList ++ Config.defaultPaths home
  match i.command with
  | .dump p _ | .lookUp p _ | .verify p _ | .recover p | .append p _ _ | .segments p _ => [p]
  | .seek p _ _ => p :: configs
  | .validate config => config.toList ++ configs
  | .version => []

/-- The indexes that a manifest leads to. -/
def indexesOf (i : Invocation) (d : Disk) : List Path :=
  match i.command with
  | .segments p _ | .seek p _ _ =>
    match Recording.load p d with
    | .ok r => r.segments.map (·.index)
    | .error _ => []
  | _ => []

def put (p : Path) (before : Option Bytes) (after : Bytes) : IO Unit := do
  match before with
  | some bs =>
    if bs.isPrefixOf after then
      let h ← IO.FS.Handle.mk p.text .append
      h.write ⟨(after.drop bs.length).toArray⟩
      h.flush
    else IO.FS.writeBinFile p.text ⟨after.toArray⟩
  | none => IO.FS.writeBinFile p.text ⟨after.toArray⟩

def run (i : Invocation) : IO UInt32 := do
  let home := (← IO.getEnv "HOME").filter (· ≠ "")
  let here := Disk.nameFrom [] ⟨toString (← IO.currentDir)⟩
  let before ← take (Disk.empty here) (pathsOf i home)
  let before ← take before (indexesOf i before)
  let (out, w) := Command.run i home { disk := before }
  for (p, old, new) in before.changes w.disk do
    put p old new
  for warning in w.warnings do
    IO.eprintln s!" WARN {warning.message}"
  IO.print out.output
  match out.failure with
  | none => return 0
  | some f =>
    f.lines.forM IO.eprintln
    return 1

end Timeshift.Main

def main (args : List String) : IO UInt32 := do
  match Invocation.ofArguments args with
  | .ok i => Main.run i
  | .error .version =>
    IO.println Command.programVersion
    return 0
  | .error .help =>
    IO.println Main.usage
    return 0
  | .error .misuse =>
    IO.eprintln Main.usage
    return 2
