import AddonBuild.Path.Basic
import AddonBuild.Text.Prefix

/-!
# Arguments of the command line

A command is a word with options around it. The options that concern every command may stand in
front of the word or behind it; those behind it win. An option of one value may be given once on
either side.
-/

namespace AddonBuild

/-- What the tool can be asked to do. -/
inductive Command where
  | version
  | build
  | clean
  | cleanAll
  | vendor (root : Option Path)
  | relocate (file destination : Path)
deriving DecidableEq, Repr

/-- A command and the options that concern every command. -/
structure Invocation where
  command : Command
  json : Bool
  directory : Option Path
  reserved : List String
  exclude : List String
deriving DecidableEq, Repr

namespace Invocation

/-- Why arguments lead to no command. -/
inductive Halt where
  | usage
  | showVersion
deriving DecidableEq, Repr

/-! ### Words and options -/

/-- The words for commands. -/
inductive Word where
  | version
  | build
  | clean
  | cleanAll
  | vendor
  | relocate
deriving DecidableEq, Repr

/-- The command word that an argument is. -/
def Word.of? : String → Option Word
  | "version" => some version
  | "build" => some build
  | "clean" => some clean
  | "distclean" => some cleanAll
  | "vendor" => some vendor
  | "rewrite" => some relocate
  | _ => none

/-- The options that take a value. -/
inductive Setting where
  | directory
  | reserved
  | exclude
  | vendorRoot
  | destination
deriving DecidableEq, Repr

/-- The name of an option. -/
def Setting.name : Setting → String
  | directory => "cwd"
  | reserved => "reserved-prefix"
  | exclude => "exclude"
  | vendorRoot => "vendor-root"
  | destination => "dest"

/-- Whether an option may be given more than once. -/
def Setting.isRepeatable : Setting → Bool
  | reserved | exclude => true
  | directory | vendorRoot | destination => false

/-- Whether the value of an option is a path, which may not be empty. -/
def Setting.isPath : Setting → Bool
  | reserved | exclude => false
  | directory | vendorRoot | destination => true

/-- Where arguments stand: in front of the word, or behind it. -/
inductive Scope where
  | front
  | behind (word : Word)
deriving DecidableEq, Repr

/-- The options that take a value, by where they may stand. -/
def Scope.settings : Scope → List Setting
  | behind .vendor => [.directory, .reserved, .exclude, .vendorRoot]
  | behind .relocate => [.directory, .reserved, .exclude, .destination]
  | _ => [.directory, .reserved, .exclude]

/-- The option with a value that a name stands for. -/
def Scope.setting? (scope : Scope) (name : String) : Option Setting :=
  scope.settings.find? (·.name = name)

/-! ### Single arguments -/

/-- The forms of an argument. -/
inductive Argument where
  | separator
  | long (name : String) (value : Option String)
  | short (letters : List Char)
  | operand (text : String)
deriving DecidableEq, Repr

/-- The form of an argument. A single dash is an operand. -/
def Argument.of (text : String) : Argument :=
  match text.toList with
  | ['-', '-'] => separator
  | '-' :: '-' :: rest =>
    let name := rest.takeWhile (· ≠ '=')
    match rest.drop name.length with
    | [] => long (String.ofList name) none
    | _ :: value => long (String.ofList name) (some (String.ofList value))
  | '-' :: letter :: rest => short (letter :: rest)
  | _ => operand text

/-- Whether an argument can be the value of an option in front of it. -/
def isValue (text : String) : Bool :=
  match Argument.of text with
  | .operand _ => true
  | _ => false

/-! ### What arguments say -/

/-- What the arguments on one side of the word say. -/
structure Given where
  json : Bool
  values : List (Setting × String)
  operands : List String
deriving DecidableEq, Repr

namespace Given

/-- No arguments. -/
def empty : Given := ⟨false, [], []⟩

/-- The values of an option, in order. -/
def valuesOf (g : Given) (setting : Setting) : List String :=
  (g.values.filter (·.1 = setting)).map (·.2)

/-- The value of an option that is given at most once. -/
def path? (g : Given) (setting : Setting) : Option Path :=
  (g.valuesOf setting).head?.map Path.mk

/-- Take the value of an option. -/
def set (g : Given) (setting : Setting) (value : String) : Except Halt Given :=
  if setting.isPath ∧ value.isEmpty then .error .usage
  else if !setting.isRepeatable ∧ !(g.valuesOf setting).isEmpty then .error .usage
  else .ok { g with values := g.values ++ [(setting, value)] }

/-- Take an option without a value. How much is reported on the way does not concern the
outcome. -/
def setFlag (scope : Scope) (g : Given) (name : String) : Except Halt Given :=
  match name with
  | "verbose" => .ok g
  | "json" => if g.json then .error .usage else .ok { g with json := true }
  | "version" => .error (if scope = .front then .showVersion else .usage)
  | _ => .error .usage

/-- The long name of an option by its letter. -/
def longName (letter : Char) : String :=
  match letter with
  | 'v' => "verbose"
  | 'V' => "version"
  | _ => ""

end Given

/-- Read arguments into what was given before. In front of the word, reading stops there. -/
def read (scope : Scope) (given : Given) : List String → Except Halt (Given × List String)
  | [] => .ok (given, [])
  | argument :: rest =>
    match Argument.of argument with
    | .separator =>
      if scope = .front then
        if rest.isEmpty then .ok (given, []) else .error .usage
      else .ok ({ given with operands := given.operands ++ rest }, [])
    | .long name value =>
      match scope.setting? name, value with
      | some setting, some value => do read scope (← given.set setting value) rest
      | some setting, none =>
        match rest with
        | [] => .error .usage
        | value :: rest =>
          if isValue value then do read scope (← given.set setting value) rest
          else .error .usage
      | none, some _ => .error .usage
      | none, none => do read scope (← given.setFlag scope name) rest
    | .short letters => do
      let given ← letters.foldlM (fun g letter => g.setFlag scope (Given.longName letter)) given
      read scope given rest
    | .operand text =>
      if scope = .front then .ok (given, text :: rest)
      else read scope { given with operands := given.operands ++ [text] } rest

/-! ### Invocations -/

/-- The command of a word, with its own options and operands. -/
def commandOf (word : Word) (given : Given) : Except Halt Command :=
  match word, given.operands with
  | .version, [] => .ok .version
  | .build, [] => .ok .build
  | .clean, [] => .ok .clean
  | .cleanAll, [] => .ok .cleanAll
  | .vendor, [] => .ok (.vendor (given.path? .vendorRoot))
  | .relocate, [file] =>
    match given.path? .destination with
    | some destination =>
      if file.isEmpty then .error .usage else .ok (.relocate ⟨file⟩ destination)
    | none => .error .usage
  | _, _ => .error .usage

/-- Put together what is given on both sides of the word. -/
def assemble (front behind : Given) (command : Command) : Invocation :=
  let values (setting : Setting) : List String :=
    match behind.valuesOf setting with
    | [] => front.valuesOf setting
    | own => own
  { command
    json := front.json || behind.json
    directory := (values .directory).head?.map Path.mk
    reserved := values .reserved
    exclude := values .exclude }

/-- The invocation that arguments spell out. Without a word it is the one that shows the
version. -/
def parse (arguments : List String) : Except Halt Invocation := do
  match ← read .front .empty arguments with
  | (front, []) => return assemble front .empty .version
  | (front, word :: rest) =>
    let some word := Word.of? word | throw .usage
    let (behind, _) ← read (.behind word) .empty rest
    return assemble front behind (← commandOf word behind)

end Invocation

end AddonBuild
