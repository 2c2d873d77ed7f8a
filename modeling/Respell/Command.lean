-- SUMMARY: The program as a whole: from arguments, files and input to output and exit code.
import Respell.Command.Files
import Respell.Command.Options
import Respell.Diagnostic.Render
import Respell.Json
import Respell.Keyword.Reader
import Respell.Sink

/-!
# The command

Everything that the program does, as a function of what it is given. The keywords come first, then
the source from what reading them has left, and then the run, whose printed values go line by line
to a sink. Whether the sink fails does not change what the script does.
-/

namespace Respell.Command

/-- The name and the version of the program. -/
def versionText : String :=
  "kwscript 0.1.0"

/-- How the program is called. -/
def usageText : String :=
  "Usage: kwscript [OPTIONS] [FILE]"

/-! ## Events -/

/-- How much an event matters. -/
inductive Weight where
  | warn
  | debug
deriving Repr, DecidableEq

/-- Which events are reported. -/
structure Journal where
  enabled : Bool
  verbose : Bool

/-- The line of an event, if events of its weight are reported. -/
def Journal.line (j : Journal) (weight : Weight) (text : String) : String :=
  match weight with
  | .warn => if j.enabled then "WARN " ++ text ++ "\n" else ""
  | .debug => if j.enabled && j.verbose then "DEBUG " ++ text ++ "\n" else ""

/-! ## Keywords -/

/-- The configuration that the keyword file gives, if there is one, and the inputs that are left. -/
def baseConfig (inputs : Inputs) (o : Options) : Except String (Config × Inputs) :=
  match o.keywords with
  | none => .ok (.english, inputs)
  | some path => do
    let (text, rest) ← inputs.readFile path
    match Config.ofJson text with
    | .ok c => .ok (c, rest)
    | .error e => .error e.message

/-- The configuration that the options ask for, and the inputs that are left: the file first, and
    then every override. -/
def keywordConfig (inputs : Inputs) (o : Options) : Except String (Config × Inputs) := do
  let (base, rest) ← baseConfig inputs o
  match base.overrideAll o.overrides with
  | .ok c => .ok (c, rest)
  | .error e => .error e.message

/-- The events for keywords that no script can use. -/
def unreachableEvents (j : Journal) (t : Table) : String :=
  String.join (t.unreachable.map fun e =>
    j.line .warn ("keyword spelling is not an identifier and can never match role=" ++ e.2.word ++
      " spelling=" ++ Text.showQuoted e.1))

/-- The warning about a keyword that no script can use. -/
def unreachableWarning (spelling : String) (r : Role) : Diagnostic :=
  ((Diagnostic.warning ("spelling `" ++ spelling ++ "` for the " ++ r.word ++
      " keyword can never be lexed")).withNote
    "keywords must be spelled like identifiers").withHelp
    ("choose another spelling for `" ++ r.key ++ "`")

/-- The warnings about all such keywords. -/
def unreachableWarnings (color : Bool) (t : Table) : String :=
  let r : Renderer := ⟨[], "keywords", color⟩
  String.join (t.unreachable.map fun e => r.render (unreachableWarning e.1 e.2))

/-! ## The source -/

/-- A source text and the name under which messages know it. -/
structure Source where
  text : String
  name : String

/-- The source that the options ask for, and the events on the way to it. -/
def readSource (inputs : Inputs) (j : Journal) (o : Options) : String × Except String Source :=
  match o.eval, o.file with
  | some code, _ => (j.line .debug "using source from --eval", .ok ⟨code, "<eval>"⟩)
  | none, some path =>
    (j.line .debug ("reading script file path=" ++ path),
      (inputs.readFile path).map fun reading => ⟨reading.1, path⟩)
  | none, none => ("", inputs.readStdin.map fun reading => ⟨reading.1, "<stdin>"⟩)

/-! ## The run -/

/-- A message of the program itself, on a line of its own. -/
def errorLine (color : Bool) (message : String) : String :=
  (if color then Ink.bold.paint (Ink.red.paint message) else message) ++ "\n"

/-- The events of a run up to its execution. -/
def startEvents (j : Journal) (report : Report) : String :=
  let lexed := match report.tokens with
    | some n => j.line .debug ("lexed source count=" ++ toString n)
    | none => ""
  let parsed := match report.statements with
    | some n => j.line .debug ("parsed program count=" ++ toString n)
    | none => ""
  lexed ++ parsed

/-- The events of the end of a run. -/
def endEvents (j : Journal) (report : Report) : String :=
  match report.ending with
  | .finished v globals =>
    j.line .debug ("program finished globals=" ++ toString globals.size) ++
      j.line .debug ("run succeeded value=" ++ v.render)
  | _ => ""

/-- The event of a failure that a sink has met between two of its states. -/
def sinkEvents (j : Journal) (before after : Sink) : String :=
  match before.failure, after.failure with
  | none, some e =>
    j.line .debug ("output write failed, dropping further lines error=" ++ e.message)
  | _, _ => ""

/-- The events of a run that found its sink at `before`, left it at `printed`, and then gave it the
    globals. -/
def runEvents (j : Journal) (report : Report) (before printed last : Sink) : String :=
  startEvents j report ++ sinkEvents j before printed ++ endEvents j report ++
    sinkEvents j printed last

/-- The lines that a run prints. -/
def printedLines (report : Report) : List String :=
  report.printed.toList.map Value.render

/-- The line with the globals of a run, if it succeeded and they are asked for. -/
def globalsLines (o : Options) (report : Report) : List String :=
  match report.ending with
  | .finished _ globals =>
    if o.globals then [if o.compact then Json.compact globals else Json.pretty globals] else []
  | _ => []

/-- What a run has to say about an error in the script. -/
def errorReport (source : Source) (o : Options) (report : Report) : String :=
  match report.ending with
  | .failed e =>
    (Renderer.mk source.text.toList source.name o.colored).renderAll [e.diagnostic]
  | _ => ""

/-- Whether a run succeeded. -/
def succeeded (report : Report) : Bool :=
  match report.ending with
  | .finished _ _ => true
  | _ => false

/-- What the program leaves behind. -/
structure Response where
  code : Nat
  /-- the sink that the output went to -/
  sink : Sink
  stderr : String

/-- The message about an output that failed. A closed pipe is not worth one. -/
def outputReport (o : Options) (sink : Sink) : String :=
  match sink.finish with
  | .ok () => ""
  | .error .closed => ""
  | .error e => errorLine o.colored ("Failed to write output: " ++ e.message)

/-- The exit code of a run: zero if the script and the output have both succeeded. -/
def exitCode (report : Report) (sink : Sink) : Nat :=
  match sink.finish with
  | .ok () => if succeeded report then 0 else 1
  | .error _ => 1

/-- Run a source into a sink. -/
def runSource (j : Journal) (o : Options) (table : Table) (source : Source) (sink : Sink) :
    Response :=
  let report := Script.run Script.patience table source.text
  let printed := sink.writeLines (printedLines report)
  let last := printed.writeLines (globalsLines o report)
  ⟨exitCode report last, last,
    runEvents j report sink printed last ++ errorReport source o report ++ outputReport o last⟩

/-- Do what the options ask for. -/
def run (inputs : Inputs) (j : Journal) (o : Options) (sink : Sink) : Response :=
  match keywordConfig inputs o with
  | .error e => ⟨1, sink, errorLine o.colored e⟩
  | .ok (config, rest) =>
    let table := Table.ofConfig config
    let warnings := unreachableEvents j table ++ unreachableWarnings o.colored table
    let (events, source) := readSource rest j o
    match source with
    | .error e => ⟨1, sink, warnings ++ events ++ errorLine o.colored e⟩
    | .ok source =>
      let read := j.line .debug ("read source bytes=" ++ toString source.text.utf8ByteSize ++
        " file=" ++ source.name)
      let response := runSource j o table source sink
      { response with stderr := warnings ++ events ++ read ++ response.stderr }

/-- Do what the arguments ask for. -/
def respond (inputs : Inputs) (logging : Bool) (args : List String) (sink : Sink) : Response :=
  match Request.ofArguments args with
  | .error e => ⟨2, sink, "error: " ++ e.message ++ "\n\n" ++ usageText ++ "\n"⟩
  | .ok .help => ⟨0, sink.writeLine usageText, ""⟩
  | .ok .version => ⟨0, sink.writeLine versionText, ""⟩
  | .ok (.run o) => run inputs ⟨logging, o.verbose⟩ o sink

end Respell.Command
