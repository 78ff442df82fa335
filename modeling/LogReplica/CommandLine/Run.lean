import LogReplica.CommandLine.Help
import LogReplica.CommandLine.Output

namespace LogReplica.CommandLine

structure Ending where
  exit : UInt32
  stdout : String := ""
  stderr : String := ""

def versionNumber : String := "0.3.0"

def failed (reason : String) : Ending := ⟨1, "", "Error: \"" ++ reason ++ "\"\n"⟩

def usageError : Ending := ⟨2, "", "error: the arguments are not usable, try --help\n"⟩

def coreFailed (cause : CoreError) : Ending := failed (cause.message?.getD "no result")

def setDemo (writers items : Nat) (format : String) : Ending :=
  if writers = 0 then failed "at least one writer is required"
  else
    match Trial.SetDemo.run writers items with
    | .error cause => coreFailed cause
    | .ok report =>
      if format = "json" then ⟨0, (SetDemo.item report).render 0 ++ "\n", ""⟩
      else ⟨0, unlines (SetDemo.lines report), ""⟩

def contentionSetup (threads updates : Nat) (maxAttempts : Option Nat) : Except String Trial.Stress.Setup :=
  if threads = 0 then .error "at least one thread is required"
  else
    match maxAttempts with
    | some 0 => .error "max-attempts must be at least 1"
    | some n => .ok ⟨threads, updates, .bounded n⟩
    | none => .ok ⟨threads, updates, .unbounded⟩

def contentionEnding (report : Trial.Stress.Report) (format : String) (elapsed : Duration) : Ending :=
  let stdout :=
    if format = "json" then (Contention.item report elapsed).render 0 ++ "\n"
    else unlines (Contention.lines report elapsed)
  if report.isConsistent then ⟨0, stdout, ""⟩
  else
    { failed s!"counter ended at {report.final} after {report.tally.successful} landed increments" with
      stdout := stdout }

inductive Outcome where
  | ended (ending : Ending)
  | timed (ending : Duration → Ending)

def execute : Command → Outcome
  | .setDemo writers items format => .ended (setDemo writers items format)
  | .contention threads updates maxAttempts format =>
    match contentionSetup threads updates maxAttempts with
    | .error reason => .ended (failed reason)
    | .ok setup =>
      match Trial.Stress.run setup with
      | .error cause => .ended (coreFailed cause)
      | .ok report => .timed (contentionEnding report format)
  | .version => .ended ⟨0, "statesync CLI v" ++ versionNumber ++ "\n", ""⟩
  | .showHelp topic => .ended ⟨0, unlines (help topic), ""⟩
  | .showVersion => .ended ⟨0, "statesync " ++ versionNumber ++ "\n", ""⟩

def run (args : List String) : Outcome :=
  match parse args with
  | none => .ended usageError
  | some command => execute command

def Outcome.ending : Outcome → Duration → Ending
  | ended ending, _ => ending
  | timed ending, elapsed => ending elapsed

end LogReplica.CommandLine
