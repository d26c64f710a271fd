/-!
# Options

How the arguments of a program are read: options with a value each, which may also come from a
variable of the environment.

## Main definitions

* `ValueKind` – what values an option takes.
* `OptionDecl` – an option.
* `Interruption` – why arguments are not read to their end.
* `Given` – the values given for options.
* `Given.read` – the values given by arguments, and by variables for options without one.

## Design notes

A value is checked when the next option or the end is reached. So of a bad value and an unknown
argument right behind it, the unknown argument is what is reported.
-/

namespace ActionPolicy

/-- What values an option takes. -/
inductive ValueKind where
  | text
  /-- Any text but the empty one. -/
  | path
  /-- An unsigned integer of 64 bits. -/
  | number
  | word (words : List String)
  deriving DecidableEq, Repr

/-- Why arguments are not read to their end. -/
inductive Interruption where
  /-- There is no option of that name, or a value that belongs to none. -/
  | unknownArgument
  /-- A value is missing, or is not one that the option takes. -/
  | invalidValue
  /-- A value is no number that the option takes. -/
  | invalidNumber
  | repeatedOption
  /-- A value is given to an option that takes none. -/
  | surplusValue
  /-- An option that has to be given is not. -/
  | missingOption
  | help
  | version
  deriving DecidableEq, Repr

namespace ValueKind

/-- The greatest number that an option takes. -/
def maxNumber : Nat := UInt64.size - 1

/-- The number that a text is: digits, perhaps behind a plus sign. -/
def number? (s : String) : Option Nat :=
  let digits := match s.toList with
    | '+' :: rest => rest
    | cs => cs
  if digits.isEmpty || !digits.all Char.isDigit then none
  else
    let n := digits.foldl (fun n c => n * 10 + (c.toNat - '0'.toNat)) 0
    if n ≤ maxNumber then some n else none

/-- A value is one that an option of this kind takes. -/
def check (kind : ValueKind) (value : String) : Except Interruption Unit :=
  match kind with
  | text => .ok ()
  | path => if value.isEmpty then .error .invalidValue else .ok ()
  | number => if (number? value).isSome then .ok () else .error .invalidNumber
  | word words => if words.contains value then .ok () else .error .invalidValue

end ValueKind

/-- An option. -/
structure OptionDecl where
  name : String
  kind : ValueKind
  /-- The variable that gives its value if no argument does. -/
  envName : Option String
  /-- It may be given more than once. -/
  repeats : Bool
  required : Bool
  deriving DecidableEq, Repr

namespace OptionDecl

/-- An option that may be given once, and of which a variable may give the value. -/
def withVariable (name source : String) (kind : ValueKind) : OptionDecl :=
  ⟨name, kind, some source, false, false⟩

/-- An option that may be given once. -/
def once (name : String) (kind : ValueKind) : OptionDecl := ⟨name, kind, none, false, false⟩

end OptionDecl

/-- What a program understands. -/
structure Grammar where
  options : List OptionDecl
  tellsVersion : Bool

/-- The values given for options, in the order given. -/
structure Given where
  values : List (String × String)

namespace Given

/-- Nothing is given. -/
def none : Given := ⟨[]⟩

/-- The option is given. -/
def has (g : Given) (name : String) : Bool := g.values.any fun (n, _) => n == name

/-- The values of an option. -/
def all (g : Given) (name : String) : List String :=
  g.values.filterMap fun (n, v) => if n = name then some v else .none

/-- The first value of an option. -/
def get? (g : Given) (name : String) : Option String := (g.all name).head?

/-- One more value, if the option takes it. -/
def add (g : Given) (d : OptionDecl) (value : String) : Except Interruption Given := do
  if g.has d.name && !d.repeats then throw .repeatedOption
  d.kind.check value
  return ⟨g.values ++ [(d.name, value)]⟩

end Given

/-- Arguments that are being read. -/
structure ArgumentReader where
  /-- The values that have been checked. -/
  given : Given
  /-- The last option, with its value if that has been read. -/
  pending : Option (OptionDecl × Option String)
  closed : Bool

namespace ArgumentReader

/-- Nothing has been read. -/
def start : ArgumentReader := ⟨.none, none, false⟩

/-- The last option is complete. -/
def settle (r : ArgumentReader) : Except Interruption ArgumentReader :=
  match r.pending with
  | none => .ok r
  | some (_, none) => .error .invalidValue
  | some (d, some value) => do return { r with given := ← r.given.add d value, pending := none }

/-- The arguments end early, once the last option is complete. -/
def interrupt (r : ArgumentReader) (i : Interruption) : Except Interruption ArgumentReader := do
  let _ ← r.settle
  throw i

/-- An argument with two hyphens: a name, and a value if there is an equals sign. -/
def long (g : Grammar) (r : ArgumentReader) (name : String) (value : Option String) :
    Except Interruption ArgumentReader :=
  match g.options.find? fun d => d.name == name with
  | some d => do
    let r ← r.settle
    let r := { r with pending := some (d, value) }
    if value.isSome then r.settle else return r
  | none =>
    let asked := if name = "help" then some Interruption.help
      else if name = "version" ∧ g.tellsVersion then some .version
      else none
    match asked, value with
    | none, _ => throw .unknownArgument
    | some _, some _ => throw .surplusValue
    | some i, none => r.interrupt i

/-- An argument with one hyphen. -/
def short (g : Grammar) (r : ArgumentReader) (letter : Char) :
    Except Interruption ArgumentReader :=
  if letter = 'h' then r.interrupt .help
  else if letter = 'V' ∧ g.tellsVersion then r.interrupt .version
  else throw .unknownArgument

/-- The name and the value of an argument without its hyphens. -/
def splitValue (cs : List Char) : String × Option String :=
  let name := cs.takeWhile (· ≠ '=')
  match cs.dropWhile (· ≠ '=') with
  | [] => (String.ofList name, none)
  | _ :: value => (String.ofList name, some (String.ofList value))

/-- One more argument. -/
def step (g : Grammar) (r : ArgumentReader) (argument : String) :
    Except Interruption ArgumentReader :=
  if r.closed then throw .unknownArgument
  else
    match argument.toList with
    | ['-', '-'] => return { r with closed := true }
    | '-' :: '-' :: cs => let (name, value) := splitValue cs; r.long g name value
    | '-' :: letter :: _ => r.short g letter
    | _ =>
      match r.pending with
      | some (d, none) => return { r with pending := some (d, some argument) }
      | _ => throw .unknownArgument

end ArgumentReader

namespace Given

/-- The value that a variable gives for an option that no argument gives. -/
def addVariable (environment : String → Option String) (g : Given) (d : OptionDecl) :
    Except Interruption Given :=
  match d.envName.bind environment with
  | some value => if g.has d.name then .ok g else g.add d value
  | .none => .ok g

/-- The values given by arguments, and by variables for options without one. -/
def read (grammar : Grammar) (arguments : List String) (environment : String → Option String) :
    Except Interruption Given := do
  let r ← (← arguments.foldlM (ArgumentReader.step grammar) .start).settle
  let given ← grammar.options.foldlM (addVariable environment) r.given
  if grammar.options.any fun d => d.required && !given.has d.name then throw .missingOption
  return given

end Given

end ActionPolicy
