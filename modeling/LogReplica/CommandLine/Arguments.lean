import LogReplica.Power

namespace LogReplica.CommandLine

inductive Topic where
  | program
  | setDemo
  | contention
  | version
  | help
deriving DecidableEq

inductive Command where
  | setDemo (writers items : Nat) (format : String)
  | contention (threads updates : Nat) (maxAttempts : Option Nat) (format : String)
  | version
  | showHelp (topic : Topic)
  | showVersion
deriving DecidableEq

inductive OptionName where
  | verbose
  | help
  | version
  | writers
  | items
  | threads
  | updates
  | maxAttempts
  | format
deriving DecidableEq

namespace OptionName

def long : OptionName → String
  | verbose => "verbose"
  | help => "help"
  | version => "version"
  | writers => "writers"
  | items => "items"
  | threads => "threads"
  | updates => "updates"
  | maxAttempts => "max-attempts"
  | format => "format"

def short : OptionName → Char
  | verbose => 'v'
  | help => 'h'
  | version => 'V'
  | writers => 'w'
  | items => 'i'
  | threads => 't'
  | updates => 'u'
  | maxAttempts => 'm'
  | format => 'f'

def takesValue : OptionName → Bool
  | verbose | help | version => false
  | _ => true

end OptionName

def options : Topic → List OptionName
  | .program => [.verbose, .help, .version]
  | .setDemo => [.writers, .items, .format, .verbose, .help]
  | .contention => [.threads, .updates, .maxAttempts, .format, .verbose, .help]
  | .version => [.verbose, .help]
  | .help => []

abbrev Values := List (OptionName × String)

def digits? (cs : List Char) : Option Nat :=
  if cs.isEmpty || !cs.all Char.isDigit then none
  else some (cs.foldl (fun n c => n * 10 + (c.toNat - '0'.toNat)) 0)

/-- Digits behind an optional plus sign, for a number below 2^64. -/
def size? (s : String) : Option Nat :=
  let size :=
    match s.toList with
    | '+' :: rest => digits? rest
    | cs => digits? cs
  size.filter (· < 2 ^ 64)

/-- A number of attempts is below 2^32. It is read with a sign, so zero may be a negative one. -/
def attempts? (s : String) : Option Nat :=
  match s.toList with
  | '-' :: rest => (digits? rest).filter (· = 0)
  | _ => (size? s).filter (· < 2 ^ 32)

def number? : OptionName → String → Option Nat
  | .maxAttempts, value => attempts? value
  | _, value => size? value

def isValue : OptionName → String → Bool
  | .format, _ => true
  | name, value => (number? name value).isSome

inductive Stop where
  | usage
  | help
  | version

abbrev Reading := Except Stop

def noteValue (values : Values) (name : OptionName) (value : String) : Reading Values :=
  if isValue name value && (values.lookup name).isNone then .ok ((name, value) :: values) else .error .usage

def noteFlag (values : Values) (name : OptionName) : Reading Values :=
  match name with
  | .help => .error .help
  | .version => .error .version
  | _ => if (values.lookup name).isNone then .ok ((name, "") :: values) else .error .usage

/-- What is left to read after one argument: the value of an option may be the next one. -/
inductive Pending where
  | none
  | valueOf (name : OptionName)

/-- The letters of one argument; one that takes a value takes all that follows it. -/
def readLetters (known : List OptionName) : List Char → Values → Reading (Values × Pending)
  | [], values => .ok (values, .none)
  | c :: rest, values =>
    match known.find? (·.short = c) with
    | none => .error .usage
    | some name =>
      if name.takesValue then
        match rest with
        | [] => .ok (values, .valueOf name)
        | '=' :: value => (noteValue values name (String.ofList value)).map fun values => (values, .none)
        | value => (noteValue values name (String.ofList value)).map fun values => (values, .none)
      else do readLetters known rest (← noteFlag values name)

def readLong (known : List OptionName) (cs : List Char) (values : Values) : Reading (Values × Pending) :=
  let text := String.ofList (cs.takeWhile (· ≠ '='))
  match known.find? (·.long = text), cs.dropWhile (· ≠ '=') with
  | none, _ => .error .usage
  | some name, [] =>
    if name.takesValue then .ok (values, .valueOf name)
    else (noteFlag values name).map fun values => (values, .none)
  | some name, _ :: value =>
    if name.takesValue then
      (noteValue values name (String.ofList value)).map fun values => (values, .none)
    else .error .usage

def beginsOptions (s : String) : Bool :=
  match s.toList with
  | '-' :: _ :: _ => true
  | _ => false

/-- Reads options up to the first other argument, and returns that one and those after it. Behind
two hyphens no argument is due. -/
def readOptions (known : List OptionName) : List String → Values → Reading (Values × List String)
  | [], values => .ok (values, [])
  | arg :: rest, values =>
    match arg.toList with
    | '-' :: '-' :: [] => if rest.isEmpty then .ok (values, []) else .error .usage
    | '-' :: '-' :: cs => do
      match ← readLong known cs values with
      | (values, .none) => readOptions known rest values
      | (values, .valueOf name) =>
        match rest with
        | value :: rest =>
          if beginsOptions value then .error .usage
          else do readOptions known rest (← noteValue values name value)
        | [] => .error .usage
    | '-' :: c :: cs => do
      match ← readLetters known (c :: cs) values with
      | (values, .none) => readOptions known rest values
      | (values, .valueOf name) =>
        match rest with
        | value :: rest =>
          if beginsOptions value then .error .usage
          else do readOptions known rest (← noteValue values name value)
        | [] => .error .usage
    | _ => .ok (values, arg :: rest)

def topic? : String → Option Topic
  | "set-demo" => some .setDemo
  | "contention" => some .contention
  | "version" => some .version
  | "help" => some .help
  | _ => none

def Values.number (values : Values) (name : OptionName) (default : Nat) : Nat :=
  ((values.lookup name).bind (number? name)).getD default

def Values.text (values : Values) (name : OptionName) (default : String) : String :=
  (values.lookup name).getD default

def command (topic : Topic) (args : List String) : Reading Command := do
  let (values, rest) ← readOptions (options topic) args []
  if !rest.isEmpty then .error .usage
  match topic with
  | .setDemo => .ok (.setDemo (values.number .writers 3) (values.number .items 10) (values.text .format "text"))
  | .contention =>
    .ok (.contention (values.number .threads 4) (values.number .updates 100)
      ((values.lookup .maxAttempts).bind (number? .maxAttempts)) (values.text .format "text"))
  | .version => .ok .version
  | .program | .help => .error .usage

def helpCommand : List String → Option Command
  | [] => some (.showHelp .program)
  | [name] => (topic? name).map .showHelp
  | _ => none

def parse (args : List String) : Option Command :=
  match readOptions (options .program) args [] with
  | .error .help => some (.showHelp .program)
  | .error .version => some .showVersion
  | .error .usage => none
  | .ok (_, []) => none
  | .ok (_, name :: rest) =>
    match topic? name with
    | none => none
    | some .help => helpCommand rest
    | some topic =>
      match command topic rest with
      | .ok command => some command
      | .error .help => some (.showHelp topic)
      | .error _ => none

end LogReplica.CommandLine
