import Grove.Config.File

/-!
# The command line

The program takes a configuration file and a seed, each at most once. Arguments are read from left
to right, and a request for help or for the version is answered as soon as it is met.
-/

set_option autoImplicit false

namespace Grove.CommandLine

/-- What a command line cannot be read for. -/
inductive UsageError where
  | unknownOption (name : String)
  | unexpectedArgument (argument : String)
  | unexpectedValue (name : String)
  | missingValue (name : String)
  | repeatedOption (name : String)
  | badSeed (text : String)
  deriving DecidableEq

def UsageError.message : UsageError → String
  | .unknownOption name => "unexpected argument " ++ name
  | .unexpectedArgument argument => "unexpected argument " ++ argument
  | .unexpectedValue name => "unexpected value for " ++ name
  | .missingValue name => "a value is required for " ++ name
  | .repeatedOption name => name ++ " cannot be used multiple times"
  | .badSeed text => "invalid seed " ++ text

structure Options where
  configPath : Option String := none
  seed : Option UInt64 := none

inductive Request where
  | help
  | version
  | view (options : Options)

/-- The options. Two of them take a value. -/
inductive Flag where
  | config
  | seed
  | help
  | version
  deriving DecidableEq

namespace Flag

def longName : Flag → String
  | .config => "config"
  | .seed => "seed"
  | .help => "help"
  | .version => "version"

def shortName : Flag → Char
  | .config => 'c'
  | .seed => 's'
  | .help => 'h'
  | .version => 'V'

def all : List Flag := [.config, .seed, .help, .version]

def ofLongName? (name : List Char) : Option Flag :=
  all.find? fun flag => flag.longName.toList = name

def ofShortName? (name : Char) : Option Flag :=
  all.find? fun flag => flag.shortName = name

def takesValue : Flag → Bool
  | .config | .seed => true
  | .help | .version => false

def display (flag : Flag) : String :=
  "--" ++ flag.longName

end Flag

/-- An unsigned number of 64 bits, which a plus sign may precede. -/
def readSeed? (text : List Char) : Option UInt64 :=
  let digits := match text with
    | '+' :: rest => rest
    | _ => text
  if digits.isEmpty || !digits.all Char.isDigit then none
  else
    let value := Decimal.digitsValue digits
    if value < UInt64.size then some value.toUInt64 else none

def Options.set (options : Options) (flag : Flag) (value : List Char) :
    Except UsageError Options :=
  match flag with
  | .config =>
      if options.configPath.isSome then .error (.repeatedOption flag.display)
      else if value.isEmpty then .error (.missingValue flag.display)
      else .ok { options with configPath := some (String.ofList value) }
  | .seed =>
      if options.seed.isSome then .error (.repeatedOption flag.display)
      else
        match readSeed? value with
        | none => .error (.badSeed (String.ofList value))
        | some seed => .ok { options with seed := some seed }
  | .help | .version => .error (.unexpectedValue flag.display)

inductive Argument where
  /-- Answered at once. -/
  | final (request : Request)
  /-- An option and its value. -/
  | complete (flag : Flag) (value : List Char)
  /-- An option whose value is the next argument. -/
  | pending (flag : Flag)
  /-- A double hyphen, after which there are no options. -/
  | endOfOptions
  deriving Inhabited

/-- What a flag says, with the value that was attached to it. -/
def readFlag (flag : Flag) (attached : Option (List Char)) : Except UsageError Argument :=
  match flag, attached with
  | .help, none => .ok (.final .help)
  | .version, none => .ok (.final .version)
  | .help, some _ | .version, some _ => .error (.unexpectedValue flag.display)
  | flag, some value => .ok (.complete flag value)
  | flag, none => .ok (.pending flag)

/-- Reads an option after its two hyphens. -/
def readLong (text : List Char) : Except UsageError Argument :=
  let (name, attached) :=
    match Text.cutAt? '=' text with
    | some (name, value) => (name, some value)
    | none => (text, none)
  match Flag.ofLongName? name with
  | none => .error (.unknownOption ("--" ++ String.ofList name))
  | some flag => readFlag flag attached

/-- Reads an option after its single hyphen. What follows the letter is its value, which an equals
sign may precede. The letters that take no value end the program, so no letter follows them. -/
def readShort : List Char → Except UsageError Argument
  | [] => .error (.unexpectedArgument "-")
  | letter :: rest =>
      match Flag.ofShortName? letter with
      | none => .error (.unknownOption ("-" ++ letter.toString))
      | some .help => .ok (.final .help)
      | some .version => .ok (.final .version)
      | some flag =>
          match rest with
          | [] => .ok (.pending flag)
          | '=' :: value => .ok (.complete flag value)
          | value => .ok (.complete flag value)

/-- Whether an argument is an option rather than a value. -/
def isOption : List Char → Bool
  | '-' :: _ :: _ => true
  | _ => false

def readArgument : List Char → Except UsageError Argument
  | ['-', '-'] => .ok .endOfOptions
  | '-' :: '-' :: rest => readLong rest
  | '-' :: letter :: rest => readShort (letter :: rest)
  | text => .error (.unexpectedArgument (String.ofList text))

def parseFrom (options : Options) : List (List Char) → Except UsageError Request
  | [] => .ok (.view options)
  | argument :: rest => do
      match ← readArgument argument with
      | .final request => return request
      | .complete flag value => parseFrom (← options.set flag value) rest
      | .pending flag =>
          match rest with
          | [] => throw (.missingValue flag.display)
          | value :: rest =>
              if isOption value then throw (.missingValue flag.display)
              else parseFrom (← options.set flag value) rest
      | .endOfOptions =>
          match rest with
          | [] => return .view options
          | argument :: _ => throw (.unexpectedArgument (String.ofList argument))

def parse (arguments : List String) : Except UsageError Request :=
  parseFrom {} (arguments.map String.toList)

/-- The configuration that the options ask for. A seed of the command line goes before that of the
file. -/
def Options.configuration (options : Options) (readFile : String → Except ReadError ByteArray) :
    Except (ConfigError Float32) (Configuration Float32) := do
  let config ←
    match options.configPath with
    | some path => Configuration.ofContents (readFile path)
    | none => pure .standard
  match options.seed with
  | some seed => return { config with planting := { config.planting with seed := some seed } }
  | none => return config

def programName : String := "forest-view"

def helpText : String :=
  "Grow a procedural forest and fell its trees\n" ++
  "\n" ++
  "Usage: forest-view [OPTIONS]\n" ++
  "\n" ++
  "Options:\n" ++
  "  -c, --config <CONFIG>  TOML forest config; the default broadleaf forest is used when omitted\n" ++
  "  -s, --seed <SEED>      Fixed planting seed, overriding the config's\n" ++
  "  -h, --help             Print help\n" ++
  "  -V, --version          Print version\n"

def versionText : String := programName ++ " 0.1.0\n"

inductive Outcome where
  /-- It prints a text and ends well. -/
  | printed (text : String)
  | badUsage (error : UsageError)
  | badConfig (path : String) (error : ConfigError Float32)
  /-- It shows the forest of a configuration. -/
  | shown (config : Configuration Float32)

def run (readFile : String → Except ReadError ByteArray) (arguments : List String) : Outcome :=
  match parse arguments with
  | .error error => .badUsage error
  | .ok .help => .printed helpText
  | .ok .version => .printed versionText
  | .ok (.view options) =>
      match options.configuration readFile with
      | .error error => .badConfig (options.configPath.getD "<none>") error
      | .ok config => .shown config

/-- The line on the standard error for a configuration that cannot be used. -/
def badConfigText (path : String) (error : ConfigError Float32) : String :=
  programName ++ ": cannot use config " ++ path ++ ": " ++ error.message ++ "\n"

def Outcome.code : Outcome → Nat
  | .printed _ => 0
  | .badUsage _ => 2
  | .badConfig _ _ => 1
  | .shown _ => 0

end Grove.CommandLine
