import HeaderReflection.Text.CharClass

/-!
# Arguments

What the arguments of the program ask for: a command with its options, a help text, or the version.
An option that takes a value has it in the next argument, behind an equals sign, or, in its short
form, directly behind the letter. A value in the next argument does not start with a hyphen.
-/

namespace HeaderReflection.CommandLine

/-- What the program can do. -/
inductive Command where
  | generate | validate | dump
  deriving DecidableEq, Repr

/-- The word of a command. -/
def Command.word : Command → String
  | .generate => "generate"
  | .validate => "validate"
  | .dump => "dump"

/-- All commands, in the order they are listed. -/
def commands : List Command := [.generate, .validate, .dump]

/-- The command of a word. -/
def Command.ofWord? (word : String) : Option Command :=
  commands.find? fun c => c.word = word

/-- What an argument with hyphens can set. -/
inductive Switch where
  | config | input | ext | exclude | jobs | output | backend | typeInfo | dryRun | check | help
  deriving DecidableEq, Repr

namespace Switch

/-- The name behind two hyphens. -/
def name : Switch → String
  | config => "config"
  | input => "input"
  | ext => "ext"
  | exclude => "exclude"
  | jobs => "jobs"
  | output => "output"
  | backend => "backend"
  | typeInfo => "type-info"
  | dryRun => "dry-run"
  | check => "check"
  | help => "help"

/-- The letter behind one hyphen. -/
def letter? : Switch → Option Char
  | config => some 'c'
  | input => some 'i'
  | jobs => some 'j'
  | output => some 'o'
  | backend => some 'b'
  | help => some 'h'
  | _ => none

/-- What the value is called, if there is one. -/
def valueName? : Switch → Option String
  | config => some "CONFIG"
  | input => some "INPUT"
  | ext => some "EXTENSIONS"
  | exclude => some "EXCLUDE"
  | jobs => some "JOBS"
  | output => some "OUTPUT"
  | backend => some "BACKENDS"
  | _ => none

/-- The switch can be given more than once. -/
def isRepeatable : Switch → Bool
  | ext | exclude | backend => true
  | _ => false

end Switch

/-- The switches of a command, in the order they are listed. -/
def Command.switches : Command → List Switch
  | .generate =>
    [.config, .input, .ext, .exclude, .jobs, .output, .backend, .typeInfo, .dryRun, .check, .help]
  | _ => [.config, .input, .ext, .exclude, .jobs, .help]

/-- The greatest number of jobs. -/
def jobLimit : Nat := 18446744073709551615

/-- A number of jobs. -/
def readJobs? (value : String) : Option Nat :=
  let digits := match value.toList with
    | '+' :: rest => rest
    | cs => cs
  let n := digits.foldl (fun n d => 10 * n + (d.toNat - '0'.toNat)) 0
  if digits.isEmpty || !digits.all Text.isAsciiDigit || jobLimit < n then none else some n

/-- The switch takes the value. A path is not empty. -/
def Switch.admits (value : String) : Switch → Bool
  | .config | .input | .output => value ≠ ""
  | .jobs => (readJobs? value).isSome
  | _ => true

/-- The switches that are given, each with its value, or without one as the empty text. -/
abbrev Given := List (Switch × String)

/-- A further switch, if it can be given. -/
def Given.add (given : Given) (s : Switch) (value : String) : Option Given :=
  if !s.isRepeatable && given.any fun g => g.1 = s then none
  else if s.admits value then some (given ++ [(s, value)]) else none

/-- The values of a switch. -/
def Given.values (given : Given) (s : Switch) : List String :=
  (given.filter fun g => g.1 = s).map fun g => g.2

/-- The value of a switch that is given once at most. -/
def Given.value? (given : Given) (s : Switch) : Option String :=
  (given.values s).head?

/-- The switch is given. -/
def Given.isSet (given : Given) (s : Switch) : Bool :=
  given.any fun g => g.1 = s

/-- A switch as an argument writes it, with a value that stands in the same argument. -/
structure WrittenSwitch where
  switch : Switch
  value : Option String

/-- The text before the first equals sign, and the text behind it. -/
def splitValue (cs : List Char) : String × Option String :=
  let name := cs.takeWhile (· ≠ '=')
  (String.ofList name, match cs.drop name.length with
    | [] => none
    | _ :: value => some (String.ofList value))

/-- The switch of an argument. -/
def readSwitch? (allowed : List Switch) (argument : String) : Option WrittenSwitch :=
  match argument.toList with
  | '-' :: '-' :: cs => do
    let written := splitValue cs
    let s ← allowed.find? fun s => s.name = written.1
    if s.valueName?.isNone && written.2.isSome then none else some ⟨s, written.2⟩
  | '-' :: c :: rest => do
    let s ← allowed.find? fun s => s.letter? = some c
    if s.valueName?.isNone then some ⟨s, none⟩
    else match rest with
      | [] => some ⟨s, none⟩
      | '=' :: value => some ⟨s, some (String.ofList value)⟩
      | value => some ⟨s, some (String.ofList value)⟩
  | _ => none

/-- The argument is a value and no switch. A hyphen alone is a value. -/
def isValue (argument : String) : Bool :=
  match argument.toList with
  | '-' :: _ :: _ => false
  | _ => true

/-- What the arguments of a command ask for. -/
inductive Reading where
  | help
  | given (g : Given)
  deriving DecidableEq, Repr

/-- Reads the arguments of a command one by one. Help is given at once, and two hyphens end the
switches, behind which nothing can follow. -/
def readSwitches (allowed : List Switch) (given : Given) : List String → Option Reading
  | [] => some (.given given)
  | argument :: rest =>
    if argument = "--" then if rest.isEmpty then some (.given given) else none
    else match readSwitch? allowed argument with
      | none => none
      | some ⟨.help, _⟩ => some .help
      | some ⟨s, some value⟩ =>
        match given.add s value with
        | none => none
        | some given => readSwitches allowed given rest
      | some ⟨s, none⟩ =>
        if s.valueName?.isNone then
          match given.add s "" with
          | none => none
          | some given => readSwitches allowed given rest
        else match rest with
          | [] => none
          | value :: rest =>
            if !isValue value then none
            else match given.add s value with
              | none => none
              | some given => readSwitches allowed given rest

/-- The options of a command. -/
structure Options where
  config : Option String := none
  input : Option String := none
  extensions : List String := []
  exclude : List String := []
  jobs : Option Nat := none
  output : Option String := none
  backends : List String := []
  typeInfo : Bool := false
  dryRun : Bool := false
  check : Bool := false
  deriving DecidableEq, Repr

/-- The options of the switches that are given. -/
def Options.ofGiven (g : Given) : Options where
  config := g.value? .config
  input := g.value? .input
  extensions := g.values .ext
  exclude := g.values .exclude
  jobs := (g.value? .jobs).bind readJobs?
  output := g.value? .output
  backends := g.values .backend
  typeInfo := g.isSet .typeInfo
  dryRun := g.isSet .dryRun
  check := g.isSet .check

/-- What a help text is about. -/
inductive Topic where
  | program
  | command (c : Command)
  | help
  deriving DecidableEq, Repr

/-- What the program is asked for. -/
inductive Request where
  | help (topic : Topic)
  | version
  | perform (c : Command) (o : Options)
  deriving DecidableEq, Repr

/-- The topic that the arguments of the help command name. -/
def Topic.ofWords? : List String → Option Topic
  | [] => some .program
  | [word] => if word = "help" then some .help else (Command.ofWord? word).map .command
  | _ => none

/-- What the arguments of a command ask for. -/
def Request.ofCommand? (c : Command) (arguments : List String) : Option Request :=
  (readSwitches c.switches [] arguments).map fun
    | .help => .help (.command c)
    | .given g => .perform c (.ofGiven g)

/-- What the arguments of the program ask for, if they are well formed. -/
def Request.ofArguments? : List String → Option Request
  | [] => none
  | first :: rest =>
    if first = "--help" then some (.help .program)
    else if first = "--version" then some .version
    else if first = "help" then (Topic.ofWords? rest).map .help
    else match first.toList with
      | '-' :: 'h' :: _ => some (.help .program)
      | '-' :: 'V' :: _ => some .version
      | _ => (Command.ofWord? first).bind fun c => Request.ofCommand? c rest

end HeaderReflection.CommandLine
