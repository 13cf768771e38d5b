import Shaderwright.CommandLine.Run

/-!
The paths that a run looks at, as far as they can be told from the files known so far. Asked
twice, first with no files and then with those on the paths of the first answer, it names all of
them.
-/

namespace Shaderwright.CommandLine

def headerPaths (c : Config) : List String :=
  let hlsl := match c.hlsl.options with
    | .ok o =>
      if o.headerDir = "" then []
      else [(Hlsl.headerPlace o).commonPath, (Hlsl.headerPlace o).targetPath]
    | .error _ => []
  let msl := if c.msl.headerDir = "" then []
    else (c.msl.commonHeader :: c.msl.metadataNames.map Prod.snd).map (Path.join c.msl.headerDir)
  hlsl ++ msl

def configPaths (home : String) (fs : Flags) : List String :=
  if fs.config = "" then []
  else
    match Config.expandHome home fs.config with
    | .ok path => [path]
    | .error _ => []

/-- The paths of the code for those inputs that can be read. -/
def codePaths (files : FileTree) (target : Target) (fs : Flags) (inputs : List String) :
    List String :=
  if fs.out = "" then []
  else
    fs.out :: inputs.filterMap fun input =>
      match Source.load files input with
      | .ok shader => some (outputPath target fs.out input shader.name)
      | .error _ => none

def reach (home : String) (files : FileTree) : Request → List String
  | .help => []
  | .version => []
  | .compile target fs inputs =>
    let headers := match configOf home files fs with
      | .ok c => headerPaths c
      | .error _ => []
    configPaths home fs ++ inputs ++ codePaths files target fs inputs ++ headers

end Shaderwright.CommandLine
