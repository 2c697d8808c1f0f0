import ApiScaffold.CommandLine.Flag
import ApiScaffold.Text.Classes
import ApiScaffold.Value.Display

/-!
# Arguments

Reading the arguments of the command line. A long flag may be abbreviated as long as one flag
alone begins that way, its value may be attached with an equals sign, short flags may be
joined, and a value may follow a short flag directly. After two dashes every argument is a
plain word. The program has no use for plain words, so those that are not the value of a flag
are complained of, all together, after everything else.

An abbreviation of several flags is found out before any flag takes effect; then the flags
take effect from left to right, and the first that asks for help or the version ends it.
-/
namespace ApiScaffold.CommandLine

open Text

inductive Complaint where
  | ambiguous (argument : Text) (candidates : List Text)
  | valueMissing (p : Parameter)
  | valueUnused (s : Switch) (value : Text)
  | notAChoice (p : Parameter) (value : Text) (choices : List Text)
  | unrecognized (arguments : List Text)
  | draftMissing
  | deleteWhileValidating
  deriving DecidableEq, Repr

def Complaint.message : Complaint → Text
  | ambiguous argument candidates =>
    "ambiguous option: " ++ argument ++ " could match " ++ join ", " candidates
  | valueMissing p => "argument " ++ (Flag.parameter p).title ++ ": expected one argument"
  | valueUnused s value =>
    "argument " ++ (Flag.switch s).title ++ ": ignored explicit argument " ++ Value.quoted value
  | notAChoice p value choices =>
    "argument " ++ (Flag.parameter p).title ++ ": invalid choice: " ++ Value.quoted value ++
      " (choose from " ++ join ", " (choices.map Value.quoted) ++ ")"
  | unrecognized arguments => "unrecognized arguments: " ++ join " " arguments
  | draftMissing => "the following arguments are required: -d/--draft"
  | deleteWhileValidating => "--delete cannot be combined with --validate-only"

/-- A value in the same argument as its flag. -/
structure Attached where
  value : Text
  /-- Whether an equals sign comes before the value. -/
  marked : Bool
  deriving DecidableEq, Repr

/-- An argument by its form alone. -/
inductive Argument where
  | word (t : Text)
  | barrier
  | stranger (t : Text)
  | long (f : Flag) (attached : Option Text)
  | short (f : Flag) (attached : Option Attached)
  deriving DecidableEq, Repr

namespace Argument

def isNumeral (digits : Text) : Bool := digits.all fun c => (decimalValue? c).isSome

/-- Whether a text is a dash and a decimal number. A line feed at its end is passed over. -/
def isNegativeNumber : Text → Bool
  | '-' :: t =>
    let t := if t.getLast? = some '\n' then t.dropLast else t
    match cutAt '.' t with
    | (whole, none) => whole ≠ [] && isNumeral whole
    | (whole, some places) => isNumeral whole && places ≠ [] && isNumeral places
  | _ => false

/-- An argument that begins with a dash but with no flag. -/
def ofUnknown (t : Text) : Argument :=
  if isNegativeNumber t || t.contains ' ' then word t else stranger t

def ofFlag (spelling : Text) (f : Flag) (value : Option Text) : Argument :=
  if beginsWith "--" spelling then long f value else short f (value.map fun v => ⟨v, true⟩)

def ofAbbreviation (t start : Text) (value : Option Text) : Except Complaint Argument :=
  match Flag.completions start with
  | [] => .ok (ofUnknown t)
  | [(_, f)] => .ok (long f value)
  | several => .error (.ambiguous t (several.map (·.1)))

def ofDashed (t : Text) : Except Complaint Argument :=
  let (start, value) := cutAt '=' t
  match Flag.ofSpelling? start, t with
  | some f, _ => .ok (ofFlag start f value)
  | none, '-' :: '-' :: _ => ofAbbreviation t start value
  | none, '-' :: c :: rest =>
    match Flag.ofSpelling? ['-', c] with
    | some f => .ok (short f (some ⟨rest, false⟩))
    | none => .ok (ofUnknown t)
  | none, t => .ok (word t)

def readAll : List Text → Except Complaint (List Argument)
  | [] => .ok []
  | t :: rest =>
    if t = "--" then .ok (barrier :: rest.map word)
    else do
      let a ← if beginsWith "-" t then ofDashed t else .ok (word t)
      let more ← readAll rest
      .ok (a :: more)

/-- The text of an argument that is neither a flag nor a value. -/
def leftover : Argument → List Text
  | word t => [t]
  | barrier => ["--"]
  | stranger t => [t]
  | long _ _ => []
  | short _ _ => []

end Argument

/-- One thing that the arguments say. -/
inductive Order where
  | switch (s : Switch)
  | assign (p : Parameter) (value : Text)
  deriving DecidableEq, Repr

/-- What one argument says: its orders, the parameter that has yet to get its value, and joined
letters that are no flags. -/
structure Saying where
  orders : List Order := []
  awaiting : Option Parameter := none
  stray : List Text := []
  deriving DecidableEq, Repr

namespace Saying

/-- A flag without an attached value. -/
def bare : Flag → Saying
  | .switch s => { orders := [.switch s] }
  | .parameter p => { awaiting := some p }

/-- A flag with a value after an equals sign. -/
def marked (f : Flag) (value : Text) : Except Complaint Saying :=
  match f with
  | .switch s => .error (.valueUnused s value)
  | .parameter p => .ok { orders := [.assign p value] }

def after (s : Switch) (later : Saying) : Saying :=
  { later with orders := .switch s :: later.orders }

/-- A switch with other short flags joined to it. -/
def joined (s : Switch) : Text → Except Complaint Saying
  | [] => .error (.valueUnused s [])
  | c :: rest =>
    if c = '-' then .error (.valueUnused s (c :: rest))
    else
      match Flag.ofSpelling? ['-', c] with
      | none => .ok { orders := [.switch s], stray := ['-' :: c :: rest] }
      | some f =>
        match rest with
        | [] => .ok (after s (bare f))
        | '=' :: value => (marked f value).map (after s)
        | rest =>
          match f with
          | .parameter p => .ok (after s { orders := [.assign p rest] })
          | .switch next => (joined next rest).map (after s)

def ofShort : Flag → Option Attached → Except Complaint Saying
  | f, none => .ok (bare f)
  | .parameter p, some a => .ok { orders := [.assign p a.value] }
  | .switch s, some a => if a.marked then .error (.valueUnused s a.value) else joined s a.value

def ofLong : Flag → Option Text → Except Complaint Saying
  | f, none => .ok (bare f)
  | f, some value => marked f value

def ofArgument : Argument → Except Complaint Saying
  | .long f value => ofLong f value
  | .short f attached => ofShort f attached
  | a => .ok { stray := a.leftover }

end Saying

/-- What the arguments ask for. -/
structure Options where
  draft : Option Text := none
  output : Option Text := none
  validateOnly : Bool := false
  dryRun : Bool := false
  delete : Option Text := none
  manifest : Option Text := none
  stubs : List Text := []
  rootNamespace : Option Text := none
  enumStrategy : Option Text := none
  allModels : Bool := false
  noStrict : Bool := false
  verbosity : Nat := 0
  quiet : Bool := false
  deriving DecidableEq, Repr

/-- What ends the reading of the arguments. -/
inductive Stop where
  | help
  | version
  | complaint (c : Complaint)
  deriving DecidableEq, Repr

namespace Options

def enumStrategies : List Text := ["suffix", "qualified"]

def switch (o : Options) : Switch → Except Stop Options
  | .help => .error .help
  | .version => .error .version
  | .validateOnly => .ok { o with validateOnly := true }
  | .dryRun => .ok { o with dryRun := true }
  | .allModels => .ok { o with allModels := true }
  | .noStrict => .ok { o with noStrict := true }
  | .verbose => .ok { o with verbosity := o.verbosity + 1 }
  | .quiet => .ok { o with quiet := true }

def assign (o : Options) (p : Parameter) (value : Text) : Except Stop Options :=
  match p with
  | .draft => .ok { o with draft := some value }
  | .output => .ok { o with output := some value }
  | .delete => .ok { o with delete := some value }
  | .manifest => .ok { o with manifest := some value }
  | .stubs => .ok { o with stubs := o.stubs ++ [value] }
  | .rootNamespace => .ok { o with rootNamespace := some value }
  | .enumStrategy =>
    if enumStrategies.contains value then .ok { o with enumStrategy := some value }
    else .error (.complaint (.notAChoice p value enumStrategies))

def obey (o : Options) : Order → Except Stop Options
  | .switch s => o.switch s
  | .assign p value => o.assign p value

/-- The options after the rest of the arguments, and the arguments that have no use. -/
def consume (o : Options) (unused : List Text) :
    List Argument → Except Stop (Options × List Text)
  | [] => .ok (o, unused)
  | a :: rest =>
    match Saying.ofArgument a with
    | .error c => .error (.complaint c)
    | .ok said =>
      let unused := unused ++ said.stray
      match said.awaiting, rest with
      | none, rest => do
        let o ← said.orders.foldlM obey o
        o.consume unused rest
      | some p, .word value :: rest => do
        let o ← (said.orders ++ [Order.assign p value]).foldlM obey o
        o.consume unused rest
      | some p, _ => .error (.complaint (.valueMissing p))

/-- The options that the arguments give. -/
def read (arguments : List Text) : Except Stop Options :=
  match Argument.readAll arguments with
  | .error c => .error (.complaint c)
  | .ok found =>
    match consume {} [] found with
    | .error stop => .error stop
    | .ok (o, []) => .ok o
    | .ok (_, unused) => .error (.complaint (.unrecognized unused))

/-- What is wrong with options that do not fit together. -/
def conflict? (o : Options) : Option Complaint :=
  if o.draft = none ∧ o.delete = none then some .draftMissing
  else if o.delete.isSome ∧ o.validateOnly then some .deleteWhileValidating
  else none

end Options

end ApiScaffold.CommandLine
