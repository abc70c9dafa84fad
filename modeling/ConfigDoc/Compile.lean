import ConfigDoc.Session.Drain
import ConfigDoc.Tree.Read

namespace ConfigDoc

variable {σ : Type}

namespace Config

/-- Compiles a tree. The session tells what has been done, also when the compilation fails. -/
def runTree (config : Config σ) (mode : Mode) (tree : Tree) (host : σ) :
    Except Error Value × Session σ :=
  match Draft.ofTree config.interpolate tree with
  | .error e => (.error e, ⟨Reference.emptyRoot, Queue.empty, host, []⟩)
  | .ok draft =>
    match Session.drainAll config mode Session.passes (Session.ofDraft host draft) with
    | (.error e, s) => (.error e, s)
    | (.ok (), s) => (.ok s.document, s)

def compileTree (config : Config σ) (mode : Mode) (tree : Tree) (host : σ) :
    Except Error Value × σ :=
  let (result, s) := config.runTree mode tree host
  (result, s.host)

def compile (config : Config σ) (mode : Mode) (text : String) (host : σ) :
    Except Error Value × σ :=
  match Tree.ofText text with
  | .error e => (.error e, host)
  | .ok tree => config.compileTree mode tree host

end Config

namespace Options

/-- The options as a run of a mode takes them: waiting for handlers switches asynchrony on. -/
def forMode (options : Options σ) : Mode → Options σ
  | .blocking => options
  | .awaiting => { options with asynchronous := true }

end Options

/-- Prepares the options and compiles a text. What is wrong with the options comes first. -/
def compileText (registered : List (Plugin σ)) (options : Options σ) (mode : Mode) (text : String)
    (host : σ) : Except Error Value × σ :=
  match Config.prepare registered (options.forMode mode) with
  | .error e => (.error e, host)
  | .ok config => config.compile mode text host

def compileTree (registered : List (Plugin σ)) (options : Options σ) (mode : Mode) (tree : Tree)
    (host : σ) : Except Error Value × σ :=
  match Config.prepare registered options with
  | .error e => (.error e, host)
  | .ok config => config.compileTree mode tree host

end ConfigDoc
