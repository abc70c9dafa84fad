import ConfigDoc.Compile
import ConfigDoc.Value.Text

/-! Compiling configuration files, with the file system given as a function. -/

namespace ConfigDoc

/-- A path below a directory; an absolute one replaces the directory. -/
def joinPath (directory rest : String) : String :=
  if rest.toList.head? = some '/' then rest
  else if directory.toList.getLast? = some '/' then directory ++ rest
  else directory ++ "/" ++ rest

def expandHome (home : Option String) (path : String) : Except Error String :=
  match path.toList with
  | '~' :: '/' :: rest =>
    match home with
    | some directory => .ok (joinPath directory (String.ofList rest))
    | none =>
      .error (.fileFailure path "Could not determine home directory for ~ expansion")
  | _ => .ok path

/-- What a program can see of a file system: the home directory of its user, and the contents of
files or why they cannot be read. -/
structure FileSystem where
  home : Option String
  read : String → Except String String

variable {σ : Type}

def compileFile (files : FileSystem) (registered : List (Plugin σ)) (options : Options σ)
    (path : String) (host : σ) : Except Error Value × σ :=
  match expandHome files.home path with
  | .error e => (.error e, host)
  | .ok path =>
    match files.read path with
    | .error reason => (.error (.fileFailure path ("Failed to read file: " ++ reason)), host)
    | .ok text => compileText registered options .blocking text host

def exportFile (files : FileSystem) (registered : List (Plugin σ)) (options : Options σ)
    (path : String) (host : σ) : Except Error String × σ :=
  let (result, after) := compileFile files registered options path host
  (result.map Value.prettyText, after)

end ConfigDoc
