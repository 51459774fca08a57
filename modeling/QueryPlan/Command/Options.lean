import QueryPlan.Number.Numeral
import QueryPlan.Text.Quoted

/-!
# Options of the command line

The arguments of a command are its input file and options. An option is written in full, or as far
as it differs from all others; its value is the next argument, or stands behind an equals sign, or,
for an option of one letter, right behind the letter. Flags of one letter can be written together.
After two dashes alone, all arguments are files. An argument that reads as a negative number is no
option.

## Main definitions

* `Options` : the values of all options.
* `Options.parse` : the request that a list of arguments makes, or what is wrong with it.
* `UsageFault.message` : what is wrong, in words.
-/

namespace QueryPlan

/-- The values of all options. -/
structure Options where
  input : String
  output : String := "output.csv"
  catalog : String := "."
  pageSize : Int := 4096
  numBuffers : Int := 100
  buffersPerJoin : Int := 10
  seed : Option Int := none
  separated : Bool := false
  stopOnError : Bool := false
  dialect : String := "postgres"
  verbose : Bool := false
  deriving Repr, DecidableEq

/-- The options. -/
inductive OptionName
  | help
  | output
  | catalog
  | pageSize
  | numBuffers
  | buffersPerJoin
  | seed
  | separated
  | stopOnError
  | dialect
  | verbose
  deriving Repr, DecidableEq

/-- What is wrong with a list of arguments. -/
inductive UsageFault
  | ambiguous (argument : String) (candidates : List String)
  | missingValue (option : OptionName)
  | needlessValue (option : OptionName) (value : String)
  | badInteger (option : OptionName) (value : String)
  | missingInput
  | unrecognized (arguments : List String)
  deriving Repr, DecidableEq

/-- What a list of arguments asks for. -/
inductive Request
  | help
  | run (o : Options)
  deriving Repr, DecidableEq

namespace OptionName

/-- All options. -/
def all : List OptionName :=
  [help, output, catalog, pageSize, numBuffers, buffersPerJoin, seed, separated, stopOnError,
    dialect, verbose]

/-- The ways to write an option, the one it is listed by first. -/
def spellings : OptionName → List String
  | help => ["-h", "--help"]
  | output => ["--output", "-o"]
  | catalog => ["--catalog"]
  | pageSize => ["--page-size"]
  | numBuffers => ["--num-buffers"]
  | buffersPerJoin => ["--buffers-per-join"]
  | seed => ["--seed"]
  | separated => ["--semicolon-separated"]
  | stopOnError => ["--stop-on-error"]
  | dialect => ["--dialect"]
  | verbose => ["--verbose", "-v"]

/-- Whether an option stands alone. -/
def isFlag : OptionName → Bool
  | help | separated | stopOnError | verbose => true
  | _ => false

/-- The option as it is named in messages. -/
def label (o : OptionName) : String := String.intercalate "/" o.spellings

/-- The option with a spelling. -/
def ofSpelling? (s : String) : Option OptionName := all.find? (·.spellings.contains s)

/-- The spellings that begin as given, each with its option. -/
def completions (start : List Char) : List (String × OptionName) :=
  all.flatMap fun o =>
    (o.spellings.filter fun s => start.isPrefixOf s.toList).map fun s => (s, o)

end OptionName

namespace UsageFault

/-- What is wrong, in words. -/
def message : UsageFault → String
  | ambiguous argument candidates =>
    "ambiguous option: " ++ argument ++ " could match " ++ String.intercalate ", " candidates
  | missingValue o => "argument " ++ o.label ++ ": expected one argument"
  | needlessValue o value =>
    "argument " ++ o.label ++ ": ignored explicit argument " ++ Text.quoted value
  | badInteger o value => "argument " ++ o.label ++ ": invalid int value: " ++ Text.quoted value
  | missingInput => "the following arguments are required: input_file"
  | unrecognized arguments => "unrecognized arguments: " ++ String.intercalate " " arguments

end UsageFault

namespace Options

/-- What an argument is: a plain one, an option that is not known, or an option, written in full or
by a single letter, with the value that is attached to it. -/
inductive Argument
  | plain
  | unknown
  | long (o : OptionName) (value : Option String)
  | short (o : OptionName) (attached : String)
  deriving Repr, DecidableEq

/-- Whether a text reads as a negative number. -/
def isNegativeNumber : List Char → Bool
  | '-' :: cs =>
    let whole := cs.takeWhile Text.isDigit
    match cs.dropWhile Text.isDigit with
    | [] => !whole.isEmpty
    | '.' :: fraction => !fraction.isEmpty && fraction.all Text.isDigit
    | _ => false
  | _ => false

/-- The text before the first equals sign, and the one behind it if there is one. -/
def splitEquals (cs : List Char) : List Char × Option String :=
  match cs.dropWhile (· ≠ '=') with
  | [] => (cs, none)
  | _ :: value => (cs.takeWhile (· ≠ '='), some (String.ofList value))

/-- The options that an argument may be short for. -/
def candidates : List Char → List (String × Argument)
  | '-' :: '-' :: cs =>
    let (name, value) := splitEquals cs
    (OptionName.completions ('-' :: '-' :: name)).map fun (s, o) => (s, .long o value)
  | '-' :: c :: cs =>
    match OptionName.ofSpelling? (String.ofList ['-', c]) with
    | some o => [(String.ofList ['-', c], .short o (String.ofList cs))]
    | none => []
  | _ => []

/-- What an argument is that is no spelling of an option. -/
def classifyOther (argument : String) : Except UsageFault Argument :=
  let cs := argument.toList
  let (name, value) := splitEquals cs
  match if value.isSome then OptionName.ofSpelling? (String.ofList name) else none with
  | some o => .ok (.long o value)
  | none =>
    match candidates cs with
    | [(_, a)] => .ok a
    | [] => .ok (if isNegativeNumber cs || cs.contains ' ' then .plain else .unknown)
    | several => .error (.ambiguous argument (several.map (·.1)))

/-- What an argument is. -/
def classify (argument : String) : Except UsageFault Argument :=
  match argument.toList with
  | [] | ['-'] => .ok .plain
  | '-' :: _ =>
    match OptionName.ofSpelling? argument with
    | some o => .ok (.long o none)
    | none => classifyOther argument
  | _ => .ok .plain

/-- An integer as the value of an option. -/
def readInteger (o : OptionName) (value : String) : Except UsageFault Int :=
  (readInteger? value).elim (.error (.badInteger o value)) .ok

/-- Sets an option to a value. -/
def setValue (options : Options) (o : OptionName) (value : String) : Except UsageFault Options :=
  match o with
  | .output => .ok { options with output := value }
  | .catalog => .ok { options with catalog := value }
  | .dialect => .ok { options with dialect := value }
  | .pageSize => (readInteger o value).map fun n => { options with pageSize := n }
  | .numBuffers => (readInteger o value).map fun n => { options with numBuffers := n }
  | .buffersPerJoin => (readInteger o value).map fun n => { options with buffersPerJoin := n }
  | .seed => (readInteger o value).map fun n => { options with seed := some n }
  | .help | .separated | .stopOnError | .verbose => .error (.needlessValue o value)

/-- Sets a flag. -/
def setFlag (options : Options) : OptionName → Options
  | .separated => { options with separated := true }
  | .stopOnError => { options with stopOnError := true }
  | .verbose => { options with verbose := true }
  | _ => options

/-- What was read of a list of arguments: the options, the option that still wants a value, the
input file, whether it was the last argument read, the arguments that have no place, and whether
help was asked for. -/
structure Progress where
  options : Options := { input := "" }
  pending : Option OptionName := none
  input : Option String := none
  afterInput : Bool := false
  surplus : List String := []
  help : Bool := false
  deriving Repr

namespace Progress

/-- Takes an argument that is no option. -/
def takePlain (p : Progress) (argument : String) : Progress :=
  match p.input with
  | none => { p with input := some argument, afterInput := true }
  | some _ => { p with surplus := p.surplus ++ [argument], afterInput := false }

/-- Takes an argument that has no place. -/
def takeSurplus (p : Progress) (argument : String) : Progress :=
  { p with surplus := p.surplus ++ [argument], afterInput := false }

/-- Takes an option; one that is no flag wants a value. -/
def takeOption (p : Progress) (o : OptionName) : Progress :=
  if o.isFlag then
    { p with options := p.options.setFlag o, help := p.help || o = .help, afterInput := false }
  else { p with pending := some o, afterInput := false }

/-- Takes the value of an option. -/
def takeValue (p : Progress) (o : OptionName) (value : String) : Except UsageFault Progress :=
  (p.options.setValue o value).map fun options =>
    { p with options := options, pending := none, afterInput := false }

/-- Takes options of one letter that are written together: flags, and at last perhaps an option with
its value. -/
def takeLetters (p : Progress) (o : OptionName) : List Char → Except UsageFault Progress
  | [] => .ok (p.takeOption o)
  | c :: cs =>
    if o.isFlag then
      match OptionName.ofSpelling? (String.ofList ['-', c]) with
      | some next => takeLetters (p.takeOption o) next cs
      | none => .error (.needlessValue o (String.ofList (c :: cs)))
    else p.takeValue o (String.ofList (c :: cs))

/-- Takes the arguments after two dashes alone. The dashes have no place either, unless they stand
beside the input file. -/
def takePlains (p : Progress) (arguments : List String) : Progress :=
  if p.input.isNone || p.afterInput then arguments.foldl takePlain p
  else ("--" :: arguments).foldl takeSurplus p

/-- Takes an argument. -/
def take (p : Progress) (argument : String) : Except UsageFault Progress := do
  match p.pending, ← classify argument with
  | some o, .plain => p.takeValue o argument
  | some o, _ => .error (.missingValue o)
  | none, .plain => .ok (p.takePlain argument)
  | none, .unknown => .ok (p.takeSurplus argument)
  | none, .long o (some value) => p.takeValue o value
  | none, .long o none => .ok (p.takeOption o)
  | none, .short o attached => p.takeLetters o attached.toList

/-- Takes arguments one after the other, up to a request for help. -/
def takeAll (p : Progress) : List String → Except UsageFault Progress
  | [] => p.pending.elim (.ok p) fun o => .error (.missingValue o)
  | argument :: arguments =>
    if p.help then .ok p
    else if argument = "--" then
      p.pending.elim (.ok (p.takePlains arguments)) fun o => .error (.missingValue o)
    else do
      let p ← p.take argument
      p.takeAll arguments

end Progress

/-- The request that a list of arguments makes. -/
def parse (arguments : List String) : Except UsageFault Request := do
  let p ← ({} : Progress).takeAll arguments
  if p.help then return .help
  match p.input with
  | none => throw .missingInput
  | some input =>
    if p.surplus.isEmpty then return .run { p.options with input := input }
    else throw (.unrecognized p.surplus)

end Options

end QueryPlan
