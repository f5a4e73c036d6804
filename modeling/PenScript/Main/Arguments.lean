import PenScript.CommandLine

/-!
# Arguments

The request that the arguments of the program stand for.
-/

namespace PenScript.CommandLine

inductive Invocation where
  | run (request : Request)
  | version
  | help
  deriving DecidableEq, Repr

/-- What can be wrong with the arguments. -/
inductive UsageFault where
  | unexpected (argument : String)
  | missingValue (option : String)
  | badValue (option value : String)
  | unwantedValue (option : String)
  | repeated (option : String)
  deriving DecidableEq, Repr

def UsageFault.message : UsageFault → String
  | .unexpected argument => s!"unexpected argument '{argument}'"
  | .missingValue option => s!"'{option}' needs a value"
  | .badValue option value => s!"invalid value '{value}' for '{option}'"
  | .unwantedValue option => s!"'{option}' takes no value"
  | .repeated option => s!"'{option}' is given more than once"

/-- Reads a count: decimal digits, which a plus sign may precede, up to 64
bits. -/
def readCount? (text : List Char) : Option Nat :=
  let digits := match text with
    | '+' :: digits => digits
    | digits => digits
  if digits.isEmpty || !digits.all Char.isDigit then none
  else
    let count := Nat.ofDigitChars 10 digits 0
    if count < UInt64.size then some count else none

/-- The two limits that can be set. -/
inductive Limit where
  | iterations
  | depth
  deriving DecidableEq, Repr

namespace Limit

def option : Limit → String
  | .iterations => "--max-iterations"
  | .depth => "--max-depth"

def get (limit : Limit) (request : Request) : Option Nat :=
  match limit with
  | .iterations => request.maxIterations
  | .depth => request.maxDepth

def set (limit : Limit) (count : Nat) (request : Request) : Request :=
  match limit with
  | .iterations => { request with maxIterations := some count }
  | .depth => { request with maxDepth := some count }

/-- Takes the value given for a limit. -/
def accept (limit : Limit) (value : List Char) (request : Request) :
    Except UsageFault Request :=
  match limit.get request, readCount? value with
  | some _, _ => .error (.repeated limit.option)
  | none, some count => .ok (limit.set count request)
  | none, none => .error (.badValue limit.option (String.ofList value))

end Limit

/-- What a named option asks for. -/
inductive Wish where
  | pardon
  | limit (limit : Limit)
  | version
  | help
  deriving DecidableEq, Repr

def Wish.ofName? (name : List Char) : Option Wish :=
  [("pardon", Wish.pardon), ("max-iterations", .limit .iterations),
    ("max-depth", .limit .depth),
   ("version", .version), ("help", .help)].lookup (String.ofList name)

/-- An argument by its form. -/
inductive Argument where
  /-- The mark after which no argument is an option. -/
  | endOfOptions
  /-- A named option, with the value after its equals sign. -/
  | option (name : List Char) (value : Option (List Char))
  /-- One-letter options, of which only the first matters. -/
  | letter (first : Char)
  | plain
  deriving DecidableEq, Repr

def Argument.ofString (argument : String) : Argument :=
  match argument.toList with
  | ['-', '-'] => .endOfOptions
  | '-' :: '-' :: rest =>
      let (name, value) := Text.cut (· == '=') rest
      .option name value
  | '-' :: first :: _ => .letter first
  | _ => .plain

/-- Takes an argument that is not an option: the one input. -/
def takeInput (request : Request) (input : String) :
    Except UsageFault Request :=
  if request.input.isSome || input.isEmpty then .error (.unexpected input)
  else .ok { request with input := some input }

/-- Takes arguments none of which is an option. -/
def takeInputs (request : Request) : List String → Except UsageFault Request
  | [] => .ok request
  | input :: rest =>
      match takeInput request input with
      | .error fault => .error fault
      | .ok request => takeInputs request rest

/-- Reads the arguments from left to right.  The first fault, or the first wish
for information, decides. -/
def readArguments (request : Request) :
    List String → Except UsageFault Invocation
  | [] => .ok (.run request)
  | argument :: rest =>
      match Argument.ofString argument with
      | .endOfOptions => (takeInputs request rest).map .run
      | .plain =>
          match takeInput request argument with
          | .error fault => .error fault
          | .ok request => readArguments request rest
      | .letter 'V' => .ok .version
      | .letter 'h' => .ok .help
      | .letter _ => .error (.unexpected argument)
      | .option name value =>
          match Wish.ofName? name, value, rest with
          | none, _, _ => .error (.unexpected argument)
          | some .version, none, _ => .ok .version
          | some .help, none, _ => .ok .help
          | some .pardon, none, rest =>
              if request.pardon then .error (.repeated argument)
              else readArguments { request with pardon := true } rest
          | some (.limit limit), some value, rest =>
              match limit.accept value request with
              | .error fault => .error fault
              | .ok request => readArguments request rest
          | some (.limit limit), none, value :: rest =>
              if Argument.ofString value = .plain then
                match limit.accept value.toList request with
                | .error fault => .error fault
                | .ok request => readArguments request rest
              else .error (.missingValue argument)
          | some (.limit _), none, [] => .error (.missingValue argument)
          | some _, some _, _ => .error (.unwantedValue argument)

def parse (arguments : List String) : Except UsageFault Invocation :=
  readArguments {} arguments

def versionText : String := "quill 0.1.0\n"

def usageText : String :=
  "Usage: quill [--pardon] [--max-iterations N] [--max-depth N] [INPUT]\n"

/-- The answer to arguments that ask for no run. -/
def refuse (fault : UsageFault) : Response :=
  ⟨2, "", s!"error: {fault.message}\n\n{usageText}"⟩

end PenScript.CommandLine
