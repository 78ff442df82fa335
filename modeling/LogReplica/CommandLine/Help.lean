import LogReplica.CommandLine.Arguments

namespace LogReplica.CommandLine

def about : Topic → String
  | .program => "Command-line demos and stress runs for statesync"
  | .setDemo => "Run concurrent replicated-set writers, then clear and compact"
  | .contention => "Increment one counter from many threads and check nothing is lost"
  | .version => "Show version information"
  | .help => "Print this message or the help of the given subcommand(s)"

def topicName : Topic → String
  | .program => ""
  | .setDemo => "set-demo"
  | .contention => "contention"
  | .version => "version"
  | .help => "help"

def optionAbout : OptionName → String
  | .verbose => "Enable verbose output"
  | .help => "Print help"
  | .version => "Print version"
  | .writers => "Number of writers, each with its own synchronizer [default: 3]"
  | .items => "Items each writer adds [default: 10]"
  | .threads => "Number of writer threads [default: 4]"
  | .updates => "Increments per thread [default: 100]"
  | .maxAttempts => "Give up an increment after this many attempts (unbounded if absent)"
  | .format => "Output format (text, json) [default: text]"

def valueName : OptionName → String
  | .writers => "WRITERS"
  | .items => "ITEMS"
  | .threads => "THREADS"
  | .updates => "UPDATES"
  | .maxAttempts => "MAX_ATTEMPTS"
  | .format => "FORMAT"
  | _ => ""

def optionHead (name : OptionName) : String :=
  "-" ++ String.singleton name.short ++ ", --" ++ name.long ++
    (if name.takesValue then " <" ++ valueName name ++ ">" else "")

def listed : Topic → List OptionName
  | .program => [.verbose, .help, .version]
  | .setDemo => [.verbose, .writers, .items, .format, .help]
  | .contention => [.threads, .verbose, .updates, .maxAttempts, .format, .help]
  | .version => [.verbose, .help]
  | .help => []

def columns (rows : List (String × String)) : List String :=
  let width := rows.foldl (fun n row => max n row.1.length) 0
  rows.map fun (left, right) =>
    "  " ++ left ++ String.ofList (List.replicate (width - left.length) ' ') ++ "  " ++ right

def usage : Topic → String
  | .program => "Usage: statesync [OPTIONS] <COMMAND>"
  | .help => "Usage: statesync help [COMMAND]..."
  | topic => "Usage: statesync " ++ topicName topic ++ " [OPTIONS]"

def help (topic : Topic) : List String :=
  let commands :=
    match topic with
    | .program =>
      ["Commands:"] ++
        columns ([Topic.setDemo, .contention, .version, .help].map fun t => (topicName t, about t)) ++ [""]
    | _ => []
  let options :=
    match listed topic with
    | [] => ["Arguments:", "  [COMMAND]...  Print help for the subcommand(s)"]
    | names => ["Options:"] ++ columns (names.map fun name => (optionHead name, optionAbout name))
  [about topic, "", usage topic, ""] ++ commands ++ options

end LogReplica.CommandLine
