import Straightline.Text.Digit
import Straightline.Text.Numeral
import Straightline.Text.Quoted
import Straightline.Text.Space

/-!
# Command-line options

An argument that begins with a dash is an option, unless it is a lone dash, a negative number, or has
a blank in it.  An option may be shortened to any beginning that fits no other one, its value may
follow an equals sign, and short options may be run together, the last one with its value.  After a
double dash every argument is a plain word.  The first word is the input; what is left over is refused
at the end.
-/

namespace Straightline.Command

/-- The options. -/
inductive Switch where
  | help
  | output
  | config
  | noOptimize
  | lineLimit
  | verbose
  deriving DecidableEq, Repr

namespace Switch

/-- Every option, in the order they are declared. -/
def all : List Switch := [help, output, config, noOptimize, lineLimit, verbose]

/-- How an option is spelled. -/
def spellings : Switch → List String
  | help => ["-h", "--help"]
  | output => ["--output", "-o"]
  | config => ["--config", "-c"]
  | noOptimize => ["--no-optimize"]
  | lineLimit => ["--line-limit"]
  | verbose => ["--verbose", "-v"]

/-- Whether an option has a value. -/
def hasValue : Switch → Bool
  | output => true
  | config => true
  | lineLimit => true
  | _ => false

/-- An option as messages name it. -/
def label (s : Switch) : String := "/".intercalate s.spellings

/-- Every spelling with its option. -/
def spelled : List (String × Switch) :=
  all.flatMap fun s => s.spellings.map fun spelling => (spelling, s)

/-- The option with the given spelling. -/
def ofSpelling? (spelling : String) : Option Switch := spelled.lookup spelling

end Switch

/-- What is wrong with the arguments. -/
inductive UsageError where
  | ambiguous (argument : String) (candidates : List String)
  | ignoredValue (switch : Switch) (value : String)
  | missingValue (switch : Switch)
  | notInteger (switch : Switch) (value : String)
  | missingInput
  | leftOver (arguments : List String)
  deriving DecidableEq, Repr

/-- The wording of a usage error. -/
def UsageError.message : UsageError → String
  | ambiguous argument candidates =>
    let list := ", ".intercalate candidates
    s!"ambiguous option: {argument} could match {list}"
  | ignoredValue switch value =>
    s!"argument {switch.label}: ignored explicit argument {Text.quoted value}"
  | missingValue switch => s!"argument {switch.label}: expected one argument"
  | notInteger switch value =>
    s!"argument {switch.label}: invalid int value: {Text.quoted value}"
  | missingInput => "the following arguments are required: input"
  | leftOver arguments =>
    let list := " ".intercalate arguments
    s!"unrecognized arguments: {list}"

/-! ## Classifying arguments -/

/-- A value attached to an option. -/
structure Attached where
  value : String
  /-- Whether an equals sign parts it from the option. -/
  explicit : Bool
  deriving DecidableEq, Repr

/-- What an argument is. -/
inductive Role where
  | word
  | separator
  | switch (switch : Switch) (spelling : String) (attached : Option Attached)
  | unknown
  deriving DecidableEq, Repr

/-- A text with its part before the first equals sign and its part behind it, if it has one. -/
def splitAtEquals (cs : List Char) : List Char × Option (List Char) :=
  match cs.dropWhile (· ≠ '=') with
  | [] => (cs, none)
  | _ :: value => (cs.takeWhile (· ≠ '='), some value)

/-- The roles that the beginning of a long option may have. -/
def longCandidates (cs : List Char) : List (String × Role) :=
  let (stem, value) := splitAtEquals cs
  let attached := value.map fun v => Attached.mk (String.ofList v) true
  (Switch.spelled.filter fun entry => stem.isPrefixOf entry.1.toList).map
    fun entry => (entry.1, .switch entry.2 entry.1 attached)

/-- The roles that a short option, or a long one with a single dash, may have. -/
def shortCandidates (cs : List Char) : List (String × Role) :=
  Switch.spelled.filterMap fun entry =>
    if entry.1.toList = cs.take 2 then
      let attached := Attached.mk (String.ofList (cs.drop 2)) false
      some (entry.1, .switch entry.2 entry.1 (some attached))
    else if cs.isPrefixOf entry.1.toList then
      some (entry.1, .switch entry.2 entry.1 none)
    else none

/-- Whether a text is a negative number, possibly with a line feed behind it. -/
def isNegativeNumber (cs : List Char) : Bool :=
  let isDecimal (c : Char) : Bool := (Text.decimal? c).isSome
  let cs := if cs.getLast? = some '\n' then cs.dropLast else cs
  match cs with
  | '-' :: rest =>
    match rest.dropWhile isDecimal with
    | [] => !rest.isEmpty
    | '.' :: fraction => !fraction.isEmpty && fraction.all isDecimal
    | _ => false
  | _ => false

/-- The role of an argument that begins with a dash and is not an option's exact spelling. -/
def guess (argument : String) : Except UsageError Role :=
  let cs := argument.toList
  let candidates := if cs.take 2 = ['-', '-'] then longCandidates cs else shortCandidates cs
  match candidates with
  | [(_, role)] => .ok role
  | [] => .ok (if isNegativeNumber cs || cs.contains ' ' then .word else .unknown)
  | _ => .error (.ambiguous argument (candidates.map (·.1)))

/-- **The role of an argument** before any double dash. -/
def roleOf (argument : String) : Except UsageError Role :=
  match argument.toList with
  | '-' :: rest =>
    match Switch.ofSpelling? argument with
    | some switch => .ok (.switch switch argument none)
    | none =>
      if rest.isEmpty then .ok .word
      else
        let (stem, value) := splitAtEquals argument.toList
        let spelling := String.ofList stem
        match value, Switch.ofSpelling? spelling with
        | some v, some switch => .ok (.switch switch spelling (some ⟨String.ofList v, true⟩))
        | _, _ => guess argument
  | _ => .ok .word

/-- The arguments with their roles. -/
def classify : List String → Except UsageError (List (String × Role))
  | [] => .ok []
  | argument :: rest =>
    if argument = "--" then .ok ((argument, .separator) :: rest.map fun a => (a, .word))
    else do
      let role ← roleOf argument
      return (argument, role) :: (← classify rest)

/-! ## Taking options in -/

/-- **What the arguments ask for.** -/
structure Options where
  input : String
  output : Option String := none
  config : Option String := none
  noOptimize : Bool := false
  lineLimit : Option Int := none
  verbose : Bool := false
  deriving DecidableEq, Repr

/-- The arguments taken in so far. -/
structure Progress where
  /-- The options; the input counts once it is there. -/
  options : Options := { input := "" }
  hasInput : Bool := false
  /-- Whether the last argument was the input. -/
  atInput : Bool := false
  /-- An option that waits for its value, and the options that take effect with it. -/
  waiting : Option (List Switch × Switch) := none
  leftOver : List String := []
  deriving DecidableEq, Repr

/-- What ends the reading of arguments early. -/
inductive Halt where
  /-- Help was asked for. -/
  | help
  | usage (error : UsageError)
  deriving DecidableEq, Repr

/-- The whole number that an argument spells, in digits of any script. -/
def integer? (s : String) : Option Int :=
  match Text.strip s.toList with
  | '+' :: cs => (Text.natural? Text.decimal? cs).map Int.ofNat
  | '-' :: cs => (Text.natural? Text.decimal? cs).map (-Int.ofNat ·)
  | cs => (Text.natural? Text.decimal? cs).map Int.ofNat

/-- Takes in an option without a value. -/
def Progress.flag (p : Progress) : Switch → Except Halt Progress
  | .help => .error .help
  | .noOptimize => .ok { p with options := { p.options with noOptimize := true } }
  | .verbose => .ok { p with options := { p.options with verbose := true } }
  | _ => .ok p

/-- Takes in several options without values. -/
def Progress.flags (p : Progress) (switches : List Switch) : Except Halt Progress :=
  switches.foldlM Progress.flag p

/-- Takes in an option with its value. -/
def Progress.value (p : Progress) (value : String) : Switch → Except Halt Progress
  | .output => .ok { p with options := { p.options with output := some value } }
  | .config => .ok { p with options := { p.options with config := some value } }
  | .lineLimit =>
    match integer? value with
    | some n => .ok { p with options := { p.options with lineLimit := some n } }
    | none => .error (.usage (.notInteger .lineLimit value))
  | _ => .ok p

/-- One argument too many. -/
def Progress.extra (p : Progress) (argument : String) : Progress :=
  { p with leftOver := p.leftOver ++ [argument], atInput := false }

/-- The input, or one argument too many. -/
def Progress.word (p : Progress) (argument : String) : Progress :=
  if p.hasInput then p.extra argument
  else { p with options := { p.options with input := argument }, hasInput := true, atInput := true }

/-- A double dash goes unnoticed before the input and right behind it. -/
def Progress.separator (p : Progress) (argument : String) : Progress :=
  if p.hasInput && !p.atInput then p.extra argument else { p with atInput := false }

/-- Short options run together in one argument. -/
structure Cluster where
  /-- The options without values, in order. -/
  flags : List Switch := []
  /-- The option at the end that has a value, and the value if it stands in the argument. -/
  last : Option (Switch × Option String) := none
  /-- An end that is no option. -/
  unknown : Option String := none
  deriving DecidableEq, Repr

/-- Takes apart what follows the short option `switch`, itself without a value. -/
def Cluster.tail (switch : Switch) : List Char → Except UsageError Cluster
  | [] => .ok { flags := [switch] }
  | c :: rest =>
    if c = '-' then .error (.ignoredValue switch (String.ofList (c :: rest)))
    else
      match Switch.ofSpelling? (String.ofList ['-', c]) with
      | none => .ok { flags := [switch], unknown := some (String.ofList ('-' :: c :: rest)) }
      | some next =>
        if next.hasValue then
          let value :=
            match rest with
            | [] => none
            | '=' :: v => some (String.ofList v)
            | v => some (String.ofList v)
          .ok { flags := [switch], last := some (next, value) }
        else
          match rest with
          | '=' :: v => .error (.ignoredValue next (String.ofList v))
          | _ => do
            let cluster ← Cluster.tail next rest
            return { cluster with flags := switch :: cluster.flags }

/-- The cluster that an option argument is. -/
def Cluster.of (switch : Switch) (spelling : String) (attached : Option Attached) :
    Except UsageError Cluster :=
  match attached with
  | none => .ok (if switch.hasValue then { last := some (switch, none) } else { flags := [switch] })
  | some a =>
    if switch.hasValue then .ok { last := some (switch, some a.value) }
    else if a.explicit || spelling.startsWith "--" || a.value.isEmpty then
      .error (.ignoredValue switch a.value)
    else Cluster.tail switch a.value.toList

/-- Takes in an option argument. -/
def Progress.cluster (p : Progress) (c : Cluster) : Except Halt Progress := do
  let p := { p with leftOver := p.leftOver ++ c.unknown.toList, atInput := false }
  match c.last with
  | none => p.flags c.flags
  | some (switch, some value) => (← p.flags c.flags).value value switch
  | some (switch, none) => return { p with waiting := some (c.flags, switch) }

/-- **Takes in an argument.** -/
def Progress.step (p : Progress) : String × Role → Except Halt Progress
  | (argument, role) =>
    match p.waiting, role with
    | some (flags, switch), .word => do
      (← { p with waiting := none }.flags flags).value argument switch
    | some (_, switch), _ => .error (.usage (.missingValue switch))
    | none, .word => .ok (p.word argument)
    | none, .separator => .ok (p.separator argument)
    | none, .unknown => .ok (p.extra argument)
    | none, .switch switch spelling attached => do
      p.cluster (← (Cluster.of switch spelling attached).mapError .usage)

/-- The options, once all arguments are taken in. -/
def Progress.finish (p : Progress) : Except Halt Options :=
  match p.waiting with
  | some (_, switch) => .error (.usage (.missingValue switch))
  | none =>
    if !p.hasInput then .error (.usage .missingInput)
    else if !p.leftOver.isEmpty then .error (.usage (.leftOver p.leftOver))
    else .ok p.options

/-- **Reads the arguments of a command.** -/
def Options.read (arguments : List String) : Except Halt Options := do
  let roles ← (classify arguments).mapError .usage
  (← roles.foldlM Progress.step {}).finish

end Straightline.Command
