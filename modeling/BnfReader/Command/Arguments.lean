import BnfReader.Text.Numeral
import BnfReader.Text.Quoted

/-! Command line arguments.

A `Shape` says what a command takes: options, and either one argument, a command of its own
with all that follows it, or nothing. Options begin with a dash; they may be shortened as
long as no other option begins so, and a value may stand behind an equals sign. Two dashes
alone end the options.

Arguments are sorted into options and others first (`Shape.classify`), then taken from left
to right (`Shape.take`). What no option and no argument of the command takes is left over. -/
namespace BnfReader

/-- What an option does. -/
inductive OptionKind where
  /-- It shows the help and ends the command. -/
  | help
  /-- It is given or not. -/
  | flag
  /-- It has a value, which may be refused with a reason. -/
  | value (problem? : String → Option String)

/-- An option. -/
structure CommandOption where
  /-- The spellings of the option. -/
  spellings : List String
  /-- The name of what it gives. -/
  key : String
  kind : OptionKind

/-- What a command takes besides options. -/
inductive Operand where
  | nothing
  /-- One argument of this name. -/
  | one (name : String)
  /-- One of these commands, and all that follows it. -/
  | command (name : String) (choices : List String)

/-- What a command takes. -/
structure Shape where
  /-- The command as it is called. -/
  program : String
  /-- The help text. -/
  help : String
  options : List CommandOption
  operand : Operand

/-- Why arguments were not taken. -/
inductive Halt where
  /-- Help was asked for. -/
  | help (text : String)
  /-- Something is wrong, as the given command says. -/
  | misuse (program message : String)

/-- What was taken. -/
structure Taken where
  flags : List String := []
  /-- The values, the last one first; `none` where an option was given nothing. -/
  values : List (String × Option String) := []
  /-- The argument, or the command with what follows it. -/
  operand : List String := []
  /-- What is left over. -/
  leftOver : List String := []

/-- What stands behind the spelling of an option in the same argument. -/
inductive Attached where
  | nothing
  /-- This text behind a word and an equals sign. -/
  | value (text : String)
  /-- This text behind one letter, with or without an equals sign between them. -/
  | letters (text : String)

/-- A text attached to a spelling. -/
def Attached.behind (spelling text : List Char) : Attached :=
  match spelling with
  | '-' :: '-' :: _ => .value (String.ofList text)
  | _ => .letters (String.ofList text)

/-- How an argument is seen. -/
inductive Sight where
  | other
  | dashes
  /-- An option, if there is one, with what is attached to it. -/
  | option (found : Option CommandOption) (attached : Attached)

/-- A list of choices inside a message. -/
def choiceText (choices : List String) : String := ", ".intercalate (choices.map Text.quoted)

/-- The wording for a value that is none of the choices. -/
def invalidChoice (choices : List String) (value : String) : String :=
  "invalid choice: " ++ Text.quoted value ++ " (choose from " ++ choiceText choices ++ ")"

/-- The name of an option inside a message. -/
def CommandOption.title (o : CommandOption) : String := "/".intercalate o.spellings

/-- The name of an operand that has to be there. -/
def Operand.required? : Operand → Option String
  | .nothing => none
  | .one name => some name
  | .command name _ => some name

namespace Shape

/-- A misuse, as this command says. -/
def misuse {α : Type} (shape : Shape) (message : String) : Except Halt α :=
  .error (.misuse shape.program message)

/-- A misuse of an option or an argument. -/
def misuseOf {α : Type} (shape : Shape) (title message : String) : Except Halt α :=
  shape.misuse ("argument " ++ title ++ ": " ++ message)

/-! ### Sorting -/

/-- All spellings, each with its option. -/
def spellings (shape : Shape) : List (String × CommandOption) :=
  shape.options.flatMap fun o => o.spellings.map fun s => (s, o)

/-- An argument before and behind its first equals sign. -/
def splitEquals (cs : List Char) : List Char × Option (List Char) :=
  match cs.span (· != '=') with
  | (front, _ :: back) => (front, some back)
  | (front, []) => (front, none)

/-- Whether an argument is a negative number: a dash, then digits with at most one point,
which has digits behind it. A line may end behind it. -/
def isNegativeNumber (cs : List Char) : Bool :=
  let isDigit (c : Char) := (Text.digit? c).isSome
  let cs := if cs.getLast? = some '\n' then cs.dropLast else cs
  match cs with
  | '-' :: rest =>
    match rest.dropWhile isDigit with
    | [] => !rest.isEmpty
    | '.' :: part => !part.isEmpty && part.all isDigit
    | _ => false
  | _ => false

/-- The options that a shortened spelling can mean. -/
def candidates (shape : Shape) (cs : List Char) : List (CommandOption × String × Attached) :=
  match cs with
  | '-' :: '-' :: _ =>
    let (front, value) := splitEquals cs
    let attached := match value with
      | some v => .value (String.ofList v)
      | none => .nothing
    shape.spellings.filterMap fun (s, o) =>
      if front.isPrefixOf s.toList then some (o, s, attached) else none
  | _ =>
    shape.spellings.filterMap fun (s, o) =>
      if s.toList = cs.take 2 then some (o, s, .letters (String.ofList (cs.drop 2)))
      else if cs.isPrefixOf s.toList then some (o, s, .nothing)
      else none

/-- How an argument is seen. Only one that begins with a dash can be an option, and of those
not a dash alone, nor a negative number or an argument with a blank that no option is
spelled like. -/
def classify (shape : Shape) (arg : String) : Except Halt Sight :=
  let cs := arg.toList
  if cs.head? ≠ some '-' then .ok .other
  else
    match shape.spellings.lookup arg with
    | some o => .ok (.option (some o) .nothing)
    | none =>
      if cs.length = 1 then .ok .other
      else
        let (front, value) := splitEquals cs
        match value.bind fun v => (shape.spellings.lookup (String.ofList front)).map (·, v) with
        | some (o, v) => .ok (.option (some o) (.behind front v))
        | none =>
          match shape.candidates cs with
          | [(o, _, attached)] => .ok (.option (some o) attached)
          | [] =>
            if isNegativeNumber cs ∨ ' ' ∈ cs then .ok .other else .ok (.option none .nothing)
          | many =>
            shape.misuse ("ambiguous option: " ++ arg ++ " could match " ++
              ", ".intercalate (many.map fun m => m.2.1))

/-- All arguments sorted; behind two dashes alone there are no options. -/
def classifyAll (shape : Shape) : List String → Except Halt (List (String × Sight))
  | [] => .ok []
  | arg :: rest =>
    if arg = "--" then .ok ((arg, .dashes) :: rest.map (·, .other))
    else do
      let sight ← shape.classify arg
      return (arg, sight) :: (← shape.classifyAll rest)

/-! ### Taking -/

/-- An option without value taken. -/
def takeFlag (shape : Shape) (o : CommandOption) (t : Taken) : Except Halt Taken :=
  match o.kind with
  | .help => .error (.help shape.help)
  | _ => .ok { t with flags := o.key :: t.flags }

/-- An option with a value taken. Two dashes are dropped, so that nothing is given. -/
def takeValue (shape : Shape) (o : CommandOption) (v : String) (t : Taken) : Except Halt Taken :=
  match o.kind with
  | .value problem? =>
    if v = "--" then .ok { t with values := (o.key, none) :: t.values }
    else
      match problem? v with
      | some problem => shape.misuseOf o.title problem
      | none => .ok { t with values := (o.key, some v) :: t.values }
  | _ => .ok t

/-- The misuse of an option that takes no value by one behind it. -/
def ignored {α : Type} (shape : Shape) (o : CommandOption) (text : String) : Except Halt α :=
  shape.misuseOf o.title ("ignored explicit argument " ++ Text.quoted text)

/-- The options that are meant by a one-letter option and the letters behind it. One-letter
options take no value. -/
def spelledOut (shape : Shape) (o : CommandOption) : List Char → Except Halt (List CommandOption)
  | [] => .ok [o]
  | c :: rest =>
    match shape.spellings.lookup (String.ofList ['-', c]) with
    | none => shape.ignored o (String.ofList (c :: rest))
    | some next => do return o :: (← shape.spelledOut next rest)

/-- An option without value taken, and with it those that are meant by the letters behind it. -/
def takeFlags (shape : Shape) (o : CommandOption) (letters : String) (t : Taken) :
    Except Halt Taken := do
  if letters = "" then shape.ignored o letters
  (← shape.spelledOut o letters.toList).foldlM (fun t o => shape.takeFlag o t) t

/-- The argument at the front taken as the operand: the arguments it takes, and the rest. Two
dashes before or behind a single argument go with it. -/
def takeOperand (shape : Shape) (args : List (String × Sight)) :
    Option (List String × List (String × Sight)) :=
  let isDashes (a : String × Sight) := match a.2 with | .dashes => true | _ => false
  match args.dropWhile isDashes with
  | (arg, .other) :: rest =>
    match shape.operand with
    | .nothing => none
    | .one _ => some ([arg], rest.dropWhile isDashes)
    | .command _ _ => some (args.map Prod.fst, [])
  | _ => none

/-- The operand checked against the choices. -/
def checkOperand (shape : Shape) (operand : List String) : Except Halt Unit :=
  match shape.operand, operand with
  | .command name choices, first :: _ =>
    if choices.contains first then .ok () else shape.misuseOf name (invalidChoice choices first)
  | _, _ => .ok ()

/-- The arguments taken one after the other; `fuel` bounds their number. -/
def takeFrom (shape : Shape) : Nat → Taken → List (String × Sight) → Except Halt Taken
  | 0, t, _ => .ok t
  | _ + 1, t, [] => .ok t
  | fuel + 1, t, (arg, .option none _) :: rest =>
    shape.takeFrom fuel { t with leftOver := t.leftOver ++ [arg] } rest
  | fuel + 1, t, (_, .option (some o) attached) :: rest =>
    match o.kind, attached, rest with
    | .value _, .value v, _ => do shape.takeFrom fuel (← shape.takeValue o v t) rest
    | .value _, .letters v, _ => do shape.takeFrom fuel (← shape.takeValue o v t) rest
    | .value _, .nothing, (v, .other) :: rest => do
      shape.takeFrom fuel (← shape.takeValue o v t) rest
    | .value _, .nothing, _ => shape.misuseOf o.title "expected one argument"
    | _, .value v, _ => shape.ignored o v
    | _, .letters v, _ => do shape.takeFrom fuel (← shape.takeFlags o v t) rest
    | _, .nothing, _ => do shape.takeFrom fuel (← shape.takeFlag o t) rest
  | fuel + 1, t, (arg, sight) :: rest =>
    match if t.operand.isEmpty then shape.takeOperand ((arg, sight) :: rest) else none with
    | some (operand, rest) => do
      shape.checkOperand operand
      shape.takeFrom fuel { t with operand } rest
    | none => shape.takeFrom fuel { t with leftOver := t.leftOver ++ [arg] } rest

/-- What a command takes from its arguments. -/
def take (shape : Shape) (args : List String) : Except Halt Taken := do
  let sorted ← shape.classifyAll args
  let t ← shape.takeFrom (sorted.length + 1) {} sorted
  match shape.operand.required? with
  | some name =>
    if t.operand.isEmpty then shape.misuse ("the following arguments are required: " ++ name)
    else return t
  | none => return t

end Shape
end BnfReader
