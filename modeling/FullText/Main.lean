import FullText.Command.Arguments

/-!
# The program

Reads what the command needs from the outside, carries it out, and writes what comes of it. Nothing
is decided here: which request a command line makes is said in `FullText.Command.Arguments`, and
what comes of the request in `FullText.Command.Request`.
-/

namespace FullText

/-- What a path leads to, if anything. -/
def findEntry (path : String) : IO (Option Entry) := do
  try
    return some (.file (← IO.FS.readBinFile path).data.toList)
  catch
    | .inappropriateType .. => return some .directory
    | _ => return none

/-- What there is at the path and at each of the directories that it leads through. -/
def findEntries (path : Path) : IO (List (List String × Entry)) := do
  let mut found := []
  for n in List.range path.parts.length do
    let parts := path.parts.take (n + 1)
    if let some e ← findEntry (Path.toString ⟨path.root, parts⟩) then
      found := (parts.foldl Directory.enter path.start, e) :: found
  return found

/-- The surroundings that a request can see. -/
def look (r : Request) : IO Surroundings := do
  let setting ← IO.getEnv "EASYFTS_STOP_WORDS"
  let paths := (r.stopWordsFile.toList ++ setting.toList ++ r.output.toList).map Path.ofString
  let entries ← paths.mapM findEntries
  let stdin ← IO.getStdin
  let piped ← if ← stdin.isTty then pure none else some <$> stdin.readToEnd
  return { directory := ⟨entries.flatten⟩, setting, piped }

end FullText

open FullText in
def main (args : List String) : IO UInt32 := do
  let some r := Request.ofArguments? args
    | IO.eprintln "Error: Unknown arguments."
      return 1
  match r.run (← look r) with
  | .error f =>
    IO.eprintln f.message
    return 1
  | .ok outcome =>
    if let some output := r.output then
      if outcome.exit = 0 then
        if let .ok bytes := outcome.directory.read (.ofString output) then
          IO.FS.writeBinFile output ⟨bytes.toArray⟩
    IO.print outcome.stdout
    IO.eprint outcome.stderr
    return outcome.exit.toUInt32
