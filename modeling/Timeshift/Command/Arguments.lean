import Timeshift.Path

/-!
# Command line arguments

Options may stand before the command and, mixed with its operands, after it. An argument that
starts with a dash is an option unless `--` came before it, and no option may be given twice.
-/

namespace Timeshift

inductive Command
  | dump (index : Path) (json : Bool)
  | lookUp (index : Path) (time : UInt64)
  | verify (index : Path) (json : Bool)
  | recover (index : Path)
  | append (index : Path) (time offset : UInt64)
  | segments (manifest : Path) (json : Bool)
  | seek (manifest : Path) (time : UInt64) (json : Bool)
  | validate (config : Option Path)
  | version
  deriving DecidableEq

structure Invocation where
  config : Option Path
  verbose : Bool
  command : Command
  deriving DecidableEq

namespace Invocation

/-- Why there is no command to run. -/
inductive Stop
  | version
  | help
  | misuse
  deriving DecidableEq

/-! ## Operands -/

inductive Kind
  | path
  | number

/-- What a command works on. -/
inductive Operand
  | path (p : Path)
  | number (n : UInt64)

/-- A number is digits alone, or a plus sign and digits, and has to fit a word. -/
def Kind.read : Kind → String → Except Stop Operand
  | .path, arg => if arg = "" then .error .misuse else .ok (.path ⟨arg⟩)
  | .number, arg =>
    let digits := match arg.toList with
      | '+' :: cs => cs
      | cs => cs
    let n := Nat.ofDigitChars 10 digits 0
    if digits = [] || !digits.all (·.isDigit) || UInt64.size ≤ n then .error .misuse
    else .ok (.number (UInt64.ofNat n))

/-! ## Options -/

/-- What may be given at a place of the command line. -/
structure Known where
  config : Bool := true
  json : Bool := false
  version : Bool := false
  operands : List Kind := []

structure Given where
  config : Option Path := none
  verbose : Bool := false
  json : Bool := false
  /-- The next argument is the value of the option for the configuration. -/
  awaiting : Bool := false
  operands : List Operand := []

namespace Given

def setConfig (g : Given) (value : String) : Except Stop Given :=
  if g.config.isSome || value = "" then .error .misuse
  else .ok { g with config := some ⟨value⟩, awaiting := false }

def setVerbose (g : Given) : Except Stop Given :=
  if g.verbose then .error .misuse else .ok { g with verbose := true }

def setJson (g : Given) : Except Stop Given :=
  if g.json then .error .misuse else .ok { g with json := true }

def addOperand (known : Known) (g : Given) (arg : String) : Except Stop Given := do
  match known.operands[g.operands.length]? with
  | some kind => return { g with operands := g.operands ++ [← kind.read arg] }
  | none => throw .misuse

end Given

/-- The letters of one argument. An option with a value takes the rest of the letters for it, or
else the next argument. -/
def readLetters (known : Known) : List Char → Given → Except Stop Given
  | [], g => .ok g
  | 'v' :: cs, g => g.setVerbose >>= readLetters known cs
  | 'c' :: cs, g =>
    if !known.config then .error .misuse
    else
      match cs with
      | [] => .ok { g with awaiting := true }
      | '=' :: cs => g.setConfig (String.ofList cs)
      | cs => g.setConfig (String.ofList cs)
  | 'V' :: _, _ => .error (if known.version then .version else .misuse)
  | 'h' :: _, _ => .error .help
  | _, _ => .error .misuse

def readWord (known : Known) (word : List Char) (g : Given) : Except Stop Given :=
  let name := String.ofList (word.takeWhile (· ≠ '='))
  match name, word.dropWhile (· ≠ '=') with
  | "verbose", [] => g.setVerbose
  | "json", [] => if known.json then g.setJson else .error .misuse
  | "version", [] => .error (if known.version then .version else .misuse)
  | "help", [] => .error .help
  | "config", [] => if known.config then .ok { g with awaiting := true } else .error .misuse
  | "config", _ :: value =>
    if known.config then g.setConfig (String.ofList value) else .error .misuse
  | _, _ => .error .misuse

def looksLikeOption (arg : String) : Bool := arg.toList.head? = some '-' && arg ≠ "-"

/-- One argument before any `--`. -/
def readArgument (known : Known) (arg : String) (g : Given) : Except Stop Given :=
  if g.awaiting then
    if looksLikeOption arg then .error .misuse else g.setConfig arg
  else
    match arg.toList with
    | '-' :: '-' :: word => readWord known word g
    | '-' :: c :: cs => readLetters known (c :: cs) g
    | _ => g.addOperand known arg

/-- The arguments of a command. -/
def readAll (known : Known) : List String → Given → Except Stop Given
  | [], g => if g.awaiting then .error .misuse else .ok g
  | arg :: args, g =>
    if arg = "--" && !g.awaiting then args.foldlM (Given.addOperand known) g
    else readArgument known arg g >>= readAll known args

/-- The options before the command, the command, and the rest. -/
def readFront (known : Known) : List String → Given → Except Stop (Given × String × List String)
  | [], _ => .error .misuse
  | arg :: args, g =>
    if g.awaiting || looksLikeOption arg then readArgument known arg g >>= readFront known args
    else .ok (g, arg, args)

/-! ## Commands -/

/-- The command that checks a configuration takes it as its operand, and knows no option for it. -/
def knownBy? : String → Option Known
  | "dump" | "verify" | "segments" => some { json := true, operands := [.path] }
  | "lookup" => some { operands := [.path, .number] }
  | "seek" => some { json := true, operands := [.path, .number] }
  | "recover" => some { operands := [.path] }
  | "append" => some { operands := [.path, .number, .number] }
  | "validate" => some { config := false, operands := [.path] }
  | "version" => some {}
  | _ => none

/-- The command of a name with its operands. -/
def commandOf (json : Bool) : String → List Operand → Except Stop Command
  | "dump", [.path index] => .ok (.dump index json)
  | "lookup", [.path index, .number time] => .ok (.lookUp index time)
  | "verify", [.path index] => .ok (.verify index json)
  | "recover", [.path index] => .ok (.recover index)
  | "append", [.path index, .number time, .number offset] => .ok (.append index time offset)
  | "segments", [.path manifest] => .ok (.segments manifest json)
  | "seek", [.path manifest, .number time] => .ok (.seek manifest time json)
  | "validate", [] => .ok (.validate none)
  | "validate", [.path config] => .ok (.validate (some config))
  | "version", [] => .ok .version
  | _, _ => .error .misuse

/-- Help can be had on a command, or on help. -/
def helpOn : List String → Stop
  | [] => .help
  | [name] => if name = "help" || (knownBy? name).isSome then .help else .misuse
  | _ => .misuse

/-- An option after the command counts more than the same one before it. -/
def ofArguments (args : List String) : Except Stop Invocation := do
  let (front, name, args) ← readFront { version := true } args {}
  if name = "help" then throw (helpOn args)
  let some known := knownBy? name | throw .misuse
  let g ← readAll known args {}
  return ⟨g.config <|> front.config, g.verbose || front.verbose, ← commandOf g.json name g.operands⟩

end Invocation

end Timeshift
