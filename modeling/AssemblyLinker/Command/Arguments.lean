import AssemblyLinker.Command.Basic

/-! # Arguments of the program

    The program has four subcommands. Options are written in a short form, which may be
    joined with others and with a value, and in a long form, whose value may follow an
    equals sign. Two hyphens end the options.

    Arguments are taken one by one, and the first that does not fit refuses them all. A
    request for help or for the version is granted where it is met.
-/

namespace AssemblyLinker

/-- A subcommand with its arguments. -/
inductive Command where
  | load (input : String) (json : Bool) (options : LinkOptions)
  | canon (input : String) (output : Option String) (options : LinkOptions)
  | bundle (root : String) (output : Option String) (options : LinkOptions)
  | uid
  deriving DecidableEq, Repr

/-- What the arguments ask for. -/
inductive Request where
  | run (command : Command)
  | help
  | version
  /-- Arguments that do not fit. -/
  | refused
  deriving DecidableEq, Repr

namespace Arguments

/-- The options of the program and of its subcommands. -/
inductive Name where
  | verbose
  | quiet
  | help
  | version
  | libPath
  | noEnv
  | system
  | jit
  | interpreted
  | json
  | output
  deriving DecidableEq, Repr

/-- How often an option may be given, and whether it has a value. -/
inductive Arity where
  /-- Without a value, once. -/
  | flag
  /-- Without a value, any number of times. -/
  | counter
  /-- With a value, once. -/
  | single
  /-- With a value, any number of times. -/
  | many
  deriving DecidableEq, Repr

/-- An option and the ways to write it. -/
structure Spec where
  name : Name
  short : Option Char := none
  long : String
  arity : Arity
  deriving DecidableEq, Repr

/-- Does an option have a value? -/
def Spec.hasValue (spec : Spec) : Bool := spec.arity = .single || spec.arity = .many

/-- May an option be given again? -/
def Spec.repeats (spec : Spec) : Bool := spec.arity = .counter || spec.arity = .many

/-! ## The options of each level -/

/-- The options that are known everywhere. -/
def globalSpecs : List Spec :=
  [⟨.verbose, some 'v', "verbose", .counter⟩, ⟨.quiet, some 'q', "quiet", .flag⟩,
    ⟨.help, some 'h', "help", .flag⟩]

/-- The options before the subcommand. -/
def programSpecs : List Spec := globalSpecs ++ [⟨.version, some 'V', "version", .flag⟩]

/-- The options of the subcommands that load assemblies. -/
def linkSpecs : List Spec :=
  globalSpecs ++
    [⟨.libPath, some 'L', "lib-path", .many⟩, ⟨.noEnv, none, "no-env", .flag⟩,
      ⟨.system, none, "system", .single⟩, ⟨.jit, none, "jit", .flag⟩,
      ⟨.interpreted, none, "interpreted", .flag⟩]

/-- The options of `load`. -/
def loadSpecs : List Spec := linkSpecs ++ [⟨.json, none, "json", .flag⟩]

/-- The options of the subcommands that write a file. -/
def writeSpecs : List Spec := linkSpecs ++ [⟨.output, some 'o', "output", .single⟩]

/-! ## Taking arguments -/

/-- What has been taken so far: options with their values, and operands, in order. -/
structure Taken where
  options : List (Name × String) := []
  operands : List String := []
  deriving DecidableEq, Repr

/-- Why no more arguments are taken. -/
inductive Halt where
  | refused
  | help
  | version
  deriving DecidableEq, Repr

/-- The values of an option. -/
def Taken.values (t : Taken) (name : Name) : List String :=
  (t.options.filter (·.1 = name)).map (·.2)

/-- Has an option been given? -/
def Taken.has (t : Taken) (name : Name) : Bool := t.options.any (·.1 = name)

/-- Takes an option. A value must not be empty. -/
def Taken.addOption (t : Taken) (spec : Spec) (value : String) : Except Halt Taken :=
  if t.has spec.name ∧ ¬ spec.repeats then .error .refused
  else if spec.hasValue ∧ value = "" then .error .refused
  else if spec.name = .help then .error .help
  else if spec.name = .version then .error .version
  else .ok { t with options := t.options ++ [(spec.name, value)] }

/-- Takes an operand, as many as given at most; it must not be empty. -/
def Taken.addOperand (t : Taken) (limit : Nat) (operand : String) : Except Halt Taken :=
  if limit ≤ t.operands.length ∨ operand = "" then .error .refused
  else .ok { t with operands := t.operands ++ [operand] }

/-- Can an argument be the value of the option before it? A hyphen alone can. -/
def isValue (argument : String) : Bool := argument = "-" || argument.toList.head? ≠ some '-'

/-- What an option takes from the arguments behind it. -/
inductive Need where
  | nothing
  /-- The next argument is the value of the option. -/
  | value (spec : Spec)
  deriving DecidableEq, Repr

/-- Takes the short options of one argument. The text behind an option with a value is its
    value, an equals sign between them apart. -/
def takeShort (specs : List Spec) : Taken → List Char → Except Halt (Taken × Need)
  | t, [] => .ok (t, .nothing)
  | t, c :: rest =>
    match specs.find? (·.short = some c) with
    | none => .error .refused
    | some spec =>
      if spec.hasValue then
        match rest with
        | [] => .ok (t, .value spec)
        | '=' :: value => (t.addOption spec (String.ofList value)).map (·, .nothing)
        | value => (t.addOption spec (String.ofList value)).map (·, .nothing)
      else
        match t.addOption spec "" with
        | .ok t => takeShort specs t rest
        | .error halt => .error halt

/-- Takes a long option, from behind its hyphens. -/
def takeLong (specs : List Spec) (t : Taken) (argument : List Char) :
    Except Halt (Taken × Need) :=
  let long := argument.takeWhile (· ≠ '=')
  match specs.find? (·.long.toList = long), argument.dropWhile (· ≠ '=') with
  | none, _ => .error .refused
  | some spec, [] =>
    if spec.hasValue then .ok (t, .value spec)
    else (t.addOption spec "").map (·, .nothing)
  | some spec, _ :: value =>
    if spec.hasValue then (t.addOption spec (String.ofList value)).map (·, .nothing)
    else .error .refused

/-- Takes all arguments of a level as operands. -/
def takeOperands (limit : Nat) : Taken → List String → Except Halt Taken
  | t, [] => .ok t
  | t, argument :: rest =>
    match t.addOperand limit argument with
    | .ok t => takeOperands limit t rest
    | .error halt => .error halt

/-- Takes the arguments of a subcommand. -/
def take (specs : List Spec) (limit : Nat) : Need → Taken → List String → Except Halt Taken
  | .nothing, t, [] => .ok t
  | .value _, _, [] => .error .refused
  | .value spec, t, argument :: rest =>
    if isValue argument then
      match t.addOption spec argument with
      | .ok t => take specs limit .nothing t rest
      | .error halt => .error halt
    else .error .refused
  | .nothing, t, argument :: rest =>
    match argument.toList with
    | ['-', '-'] => takeOperands limit t rest
    | '-' :: '-' :: long =>
      match takeLong specs t long with
      | .ok (t, need) => take specs limit need t rest
      | .error halt => .error halt
    | '-' :: c :: short =>
      match takeShort specs t (c :: short) with
      | .ok (t, need) => take specs limit need t rest
      | .error halt => .error halt
    | _ =>
      match t.addOperand limit argument with
      | .ok t => take specs limit .nothing t rest
      | .error halt => .error halt

/-! ## Subcommands -/

/-- The options on linking that have been given. The two modes exclude each other. -/
def linkOptions (t : Taken) : Except Halt LinkOptions :=
  if t.has .jit ∧ t.has .interpreted then .error .refused
  else
    .ok { libraryPaths := t.values .libPath, useEnvironment := ¬ t.has .noEnv,
          system := (t.values .system).head?,
          mode :=
            if t.has .jit then .jit else if t.has .interpreted then .interpreted else .native }

/-- The single operand of a subcommand. -/
def operand (t : Taken) : Except Halt String :=
  match t.operands.head? with
  | some s => .ok s
  | none => .error .refused

/-- A subcommand by its name, from the arguments behind it. -/
def subcommand (name : String) (arguments : List String) : Except Halt Command :=
  match name with
  | "load" => do
    let t ← take loadSpecs 1 .nothing {} arguments
    return .load (← operand t) (t.has .json) (← linkOptions t)
  | "canon" => do
    let t ← take writeSpecs 1 .nothing {} arguments
    return .canon (← operand t) (t.values .output).head? (← linkOptions t)
  | "bundle" => do
    let t ← take writeSpecs 1 .nothing {} arguments
    return .bundle (← operand t) (t.values .output).head? (← linkOptions t)
  | "uid" => do
    let _ ← take globalSpecs 0 .nothing {} arguments
    return .uid
  | _ => throw .refused

/-- The names of the subcommands. -/
def subcommandNames : List String := ["load", "canon", "bundle", "uid", "help"]

/-- Help on the program or on one of its subcommands. -/
def helpOn : List String → Except Halt Command
  | [] => .error .help
  | [name] => if subcommandNames.contains name then .error .help else .error .refused
  | _ => .error .refused

/-- Takes the arguments of the program. -/
def program (t : Taken) : List String → Except Halt Command
  | [] => .error .refused
  | argument :: rest =>
    match argument.toList with
    | ['-', '-'] => .error .refused
    | '-' :: '-' :: long =>
      match takeLong programSpecs t long with
      | .ok (t, _) => program t rest
      | .error halt => .error halt
    | '-' :: c :: short =>
      match takeShort programSpecs t (c :: short) with
      | .ok (t, _) => program t rest
      | .error halt => .error halt
    | _ => if argument = "help" then helpOn rest else subcommand argument rest

/-- What arguments ask for. -/
def parse (arguments : List String) : Request :=
  match program {} arguments with
  | .ok command => .run command
  | .error .help => .help
  | .error .version => .version
  | .error .refused => .refused

end Arguments

end AssemblyLinker
