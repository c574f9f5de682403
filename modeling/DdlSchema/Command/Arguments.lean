/-! The arguments of the command line: `parse`, `tokens`, `script`, `graph` and `keywords`. -/
namespace DdlSchema
namespace Command

inductive ColorChoice where
  | auto
  | always
  | never
deriving DecidableEq, Repr

namespace ColorChoice

def ofName? : String → Option ColorChoice
  | "auto" => some auto
  | "always" => some always
  | "never" => some never
  | _ => none

/-- Without a choice, colours are for terminals. -/
def resolve (isTerminal : Bool) : ColorChoice → Bool
  | auto => isTerminal
  | always => true
  | never => false

end ColorChoice

/-- Where statements come from. -/
inductive InputSource where
  | file (path : String)
  | standardInput
  | inline (text : String)
  | missing
deriving DecidableEq, Repr

inductive Task where
  | parse (compact : Bool)
  | tokens
  | script (withConstraints : Bool)
  | graph (onlyReachable withHooks : Bool)
  | keywords
deriving DecidableEq, Repr

/-- Whether a task reads statements. -/
def Task.readsInput : Task → Bool
  | parse _ | tokens | script _ => true
  | graph .. | keywords => false

structure Invocation where
  task : Task
  input : InputSource
  color : ColorChoice
deriving DecidableEq, Repr

/-- The subcommands. -/
inductive Name where
  | parse
  | tokens
  | script
  | graph
  | keywords
deriving DecidableEq, Repr

namespace Name

def ofText? : String → Option Name
  | "parse" => some parse
  | "tokens" => some tokens
  | "script" => some script
  | "graph" => some graph
  | "keywords" => some keywords
  | _ => none

def readsInput : Name → Bool
  | parse | tokens | script => true
  | graph | keywords => false

end Name

/-- What help is about: the whole command line, a subcommand, or help itself. -/
inductive Topic where
  | overview
  | command (name : Name)
  | help
deriving DecidableEq, Repr

def Topic.ofText? : String → Option Topic
  | "help" => some help
  | text => (Name.ofText? text).map command

/-- Why arguments are no invocation. -/
inductive Refusal where
  | usage
  | help (topic : Topic)
deriving DecidableEq, Repr

/-- The options met so far. Each may be given once. -/
structure Options where
  color : Option ColorChoice := none
  file : Option String := none
  sql : Option String := none
  compact : Bool := false
  noConstraints : Bool := false
  all : Bool := false
  noHooks : Bool := false
deriving DecidableEq, Repr

/-- What an argument does: it is complete, or the next one is its value. -/
inductive Effect where
  | done (options : Options)
  | wantsColor
  | wantsSql

namespace Options

def setColor (o : Options) (value : String) : Except Refusal Options :=
  match o.color, ColorChoice.ofName? value with
  | none, some color => .ok { o with color := some color }
  | _, _ => .error .usage

def setSql (o : Options) (value : String) : Except Refusal Options :=
  if o.sql.isSome then .error .usage else .ok { o with sql := some value }

def setFile (o : Options) (name : Name) (value : String) : Except Refusal Options :=
  if o.file.isSome || value.isEmpty || !name.readsInput then .error .usage
  else .ok { o with file := some value }

/-- Sets a switch, which takes no value. -/
def setSwitch (isSet : Bool) (value : Option String) (o : Options) : Except Refusal Options :=
  if isSet || value.isSome then .error .usage else .ok o

end Options

/-- An argument that begins with two hyphens, before the subcommand where there is no name. -/
def long (name : Option Name) (option : String) (value : Option String) (o : Options) :
    Except Refusal Effect := do
  match name, option with
  | _, "color" =>
    match value with
    | some value => return .done (← o.setColor value)
    | none => return .wantsColor
  | _, "verbose" => return .done (← o.setSwitch false value)
  | _, "help" =>
    if value.isSome then throw .usage else throw (.help (name.elim .overview .command))
  | some .parse, "compact" =>
    return .done (← { o with compact := true }.setSwitch o.compact value)
  | some .script, "no-constraints" =>
    return .done (← { o with noConstraints := true }.setSwitch o.noConstraints value)
  | some .graph, "all" => return .done (← { o with all := true }.setSwitch o.all value)
  | some .graph, "no-hooks" =>
    return .done (← { o with noHooks := true }.setSwitch o.noHooks value)
  | some name, "sql" =>
    if name.readsInput then
      match value with
      | some value => return .done (← o.setSql value)
      | none => return .wantsSql
    else throw .usage
  | _, _ => throw .usage

/-- The letters behind one hyphen. A value stands behind its letter or in the next argument. -/
def short (name : Option Name) (o : Options) : List Char → Except Refusal Effect
  | [] => .ok (.done o)
  | 'v' :: cs => short name o cs
  | 'h' :: _ => .error (.help (name.elim .overview .command))
  | 's' :: cs =>
    if name.any Name.readsInput then
      match cs with
      | [] => .ok .wantsSql
      | '=' :: value | value => do .ok (.done (← o.setSql (.ofList value)))
    else .error .usage
  | _ => .error .usage

/-- The name and the value of an option, parted by the first equals sign. -/
def splitOption (cs : List Char) : String × Option String :=
  (.ofList (cs.takeWhile (· != '=')),
    match cs.dropWhile (· != '=') with
    | [] => none
    | _ :: value => some (.ofList value))

/-- Whether an argument is an option and can be no value. -/
def isOption (arg : String) : Bool := arg.startsWith "-" && arg != "-"

/-- What one argument does, unless it is a plain one. -/
def option? (name : Option Name) (o : Options) (arg : String) : Option (Except Refusal Effect) :=
  match arg.toList with
  | '-' :: '-' :: cs =>
    let (option, value) := splitOption cs
    some (long name option value o)
  | '-' :: c :: cs => some (short name o (c :: cs))
  | _ => none

/-- The options of a subcommand. Behind two hyphens alone every argument is a plain one. -/
def optionsOf (name : Name) : Bool → Options → List String → Except Refusal Options
  | _, o, [] => .ok o
  | true, o, arg :: args => do optionsOf name true (← o.setFile name arg) args
  | false, o, arg :: args =>
    if arg = "--" then optionsOf name true o args
    else
      match option? (some name) o arg with
      | none => do optionsOf name false (← o.setFile name arg) args
      | some (.error e) => .error e
      | some (.ok (.done o)) => optionsOf name false o args
      | some (.ok effect) =>
        match args with
        | [] => .error .usage
        | value :: args =>
          if isOption value then .error .usage
          else do
            let o ← match effect with
              | .wantsColor => o.setColor value
              | _ => o.setSql value
            optionsOf name false o args

/-- The invocation of a subcommand. A colour given to it counts before one given in front. -/
def invocation (name : Name) (outer o : Options) : Except Refusal Invocation :=
  let color := ((o.color <|> outer.color).getD .auto)
  let task := match name with
    | .parse => .parse o.compact
    | .tokens => .tokens
    | .script => .script !o.noConstraints
    | .graph => .graph (!o.all) (!o.noHooks)
    | .keywords => .keywords
  match o.file, o.sql with
  | some _, some _ => .error .usage
  | none, some text => .ok ⟨task, .inline text, color⟩
  | some path, none => .ok ⟨task, if path = "-" then .standardInput else .file path, color⟩
  | none, none => .ok ⟨task, .missing, color⟩

/-- The help that is asked for by name. It takes one topic at most, and no options. -/
def helpOn : List String → Refusal
  | [] => .help .overview
  | [text] => (Topic.ofText? text).elim .usage .help
  | _ => .usage

/-- Reads options up to the subcommand and then those of the subcommand. -/
def readFrom (outer : Options) : List String → Except Refusal Invocation
  | [] => .error .usage
  | arg :: args =>
    match option? none outer arg with
    | some (.error e) => .error e
    | some (.ok (.done outer)) => readFrom outer args
    | some (.ok _) =>
      match args with
      | [] => .error .usage
      | value :: args =>
        if isOption value then .error .usage
        else do readFrom (← outer.setColor value) args
    | none =>
      if arg = "help" then .error (helpOn args)
      else match Name.ofText? arg with
        | none => .error .usage
        | some name => do invocation name outer (← optionsOf name false {} args)

/-- The invocation that the arguments ask for. -/
def interpret (args : List String) : Except Refusal Invocation := readFrom {} args

end Command
end DdlSchema
