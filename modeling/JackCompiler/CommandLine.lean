import JackCompiler.Files.Build

/-!
# The command line

The command line names a file or directory, and whether to compile it or to list its tokens. The
answer is a printed text and an exit code.

## Main definitions

* `Command`, `Command.ofArguments?` — what can be asked for
* `Report`, `Report.output`, `runCommandLine` — what is answered
-/

namespace JackCompiler

/-- What the command line can ask for. -/
inductive Command where
  | compile (path : String)
  | tokens (path : String)
deriving DecidableEq, Repr, Inhabited

/-- The command that arguments ask for. A path alone is compiled. -/
def Command.ofArguments? : List String → Option Command
  | ["compile", path] => some (.compile path)
  | ["tokens", path] => some (.tokens path)
  | [path] =>
    if path ∈ ["compile", "tokens", "-h", "--help"] then none else some (.compile path)
  | _ => none

/-- The path that a command is about. -/
def Command.path : Command → String
  | .compile path => path
  | .tokens path => path

/-- What the command line answers. -/
structure Report where
  exitCode : Nat
  /-- The texts that are printed, one after the other. A name of a file may hold line breaks. -/
  printed : List String
deriving DecidableEq, Repr, Inhabited

/-- The output of a report: a line end follows each text. -/
def Report.output (report : Report) : String :=
  String.join (report.printed.map (· ++ "\n"))

/-- The exit code for a command line that cannot be used. -/
def usageExitCode : Nat := 64

/-- The exit code for a build that failed. -/
def failureExitCode : Nat := 1

/-- The explanation of the command line. -/
def usageLines : List String :=
  ["jackc v0.1.0",
    "",
    "usage: jackc [CMD] PATH",
    "",
    "commands:",
    "    compile     Compile the target .jack file, or every .jack file in",
    "                the target directory, into .vm files (default)",
    "    tokens      Write the token listing of each .jack file into an",
    "                XML file, Main.jack -> MainT.xml",
    "",
    "examples:",
    "    jackc Main.jack",
    "    jackc compile projects/Square",
    "    jackc tokens projects/Square",
    ""]

/-- The line of the log that reports a fault: its severity, the program and the message. The time of
the report, which a log puts in front of them, is left out. -/
def faultReport (fault : Fault) : String :=
  "ERROR [jackc] " ++ fault.message

/-- Runs a command, and answers the paths of the files that it has written. -/
def Command.build : Command → Build (List String)
  | .compile path => Build.compilePath {} path
  | .tokens path => Build.tokenizePath {} path

/-- The report of a command that has been run. -/
def reportOf : Except Fault (List String) → Report
  | .ok outputs => { exitCode := 0, printed := outputs }
  | .error (.usage message) =>
    { exitCode := usageExitCode, printed := faultReport (.usage message) :: usageLines }
  | .error fault => { exitCode := failureExitCode, printed := [faultReport fault] }

/-- Runs a command line on a tree of files. Of the log, errors alone are printed. -/
def runCommandLine (arguments : List String) (tree : FileTree) : Report × FileTree :=
  match Command.ofArguments? arguments with
  | none => ({ exitCode := usageExitCode, printed := usageLines }, tree)
  | some command =>
    let (result, workspace) := command.build.run.run { tree }
    (reportOf result, workspace.tree)

end JackCompiler
