/-
  The arguments of the program.

  Arguments are read in two levels: switches of the program, then the name of a command, then
  switches and words of the command.  A level is first cut into items by the switches it knows
  (`readItems`), and the items are then taken in order (`Given.collect`): each switch at most once,
  no more words than the command has places, every value such as its switch wants it.

  A value stands in the argument of its switch or is the next argument, which must not look like a
  switch.  Behind two dashes everything is a word.
-/
import Embroidery.Files.Path
import Embroidery.Number.Decimal

namespace Embroidery

/-! ## Switches -/

/-- What a switch wants, or asks for at once. -/
inductive SwitchKind where
  | flag
  | path
  /-- A machine word. -/
  | number
  | help
  | version
deriving DecidableEq

structure Switch where
  long : String
  short : Option Char
  kind : SwitchKind
deriving DecidableEq

/-- The switch has a value. -/
def Switch.hasValue (s : Switch) : Bool := s.kind = .path || s.kind = .number

/-- A number that a switch may have. -/
def readCount (text : String) : Option Nat :=
  match readInteger text.toList with
  | some n => if 0 ≤ n ∧ n < UInt32.size then some n.toNat else none
  | none => none

/-- A value such as the switch wants it. -/
def Switch.accepts (s : Switch) (value : String) : Bool :=
  match s.kind with
  | .path => value ≠ ""
  | .number => (readCount value).isSome
  | _ => false

namespace Switch

def config : Switch := ⟨"config", some 'c', .path⟩
def output : Switch := ⟨"output", some 'o', .path⟩
def preview : Switch := ⟨"preview", none, .flag⟩
def colors : Switch := ⟨"colors", none, .number⟩
def force : Switch := ⟨"force", none, .flag⟩
def help : Switch := ⟨"help", some 'h', .help⟩
def version : Switch := ⟨"version", some 'V', .version⟩

end Switch

/-! ## Items -/

/-- A piece of the arguments. -/
inductive Item where
  | flag (s : Switch)
  | value (s : Switch) (text : String)
  | word (text : String)
  /-- Something that cannot be read, and nothing behind it is. -/
  | wrong
deriving DecidableEq

/-- An argument in itself. -/
inductive Shape where
  | word
  | dashes
  | long (name : String) (value : Option String)
  | short (letters : List Char)
deriving DecidableEq

/-- A single dash is a word. -/
def Shape.ofChars : List Char → Shape
  | ['-', '-'] => dashes
  | '-' :: '-' :: rest =>
    long (String.ofList (rest.takeWhile (· ≠ '=')))
      (match rest.dropWhile (· ≠ '=') with
        | _ :: value => some (String.ofList value)
        | [] => none)
  | '-' :: c :: rest => short (c :: rest)
  | _ => word

def Shape.of (arg : String) : Shape := ofChars arg.toList

/-- The items of a group of short switches, and the switch at its end whose value is the next
    argument, if there is one. -/
def shortItems (known : List Switch) : List Char → List Item × Option Switch
  | [] => ([], none)
  | c :: rest =>
    match known.find? fun s => s.short = some c with
    | none => ([.wrong], none)
    | some s =>
      if s.hasValue then
        match rest with
        | [] => ([], some s)
        | '=' :: value => ([.value s (String.ofList value)], none)
        | value => ([.value s (String.ofList value)], none)
      else
        let (items, awaiting) := shortItems known rest
        (.flag s :: items, awaiting)

/-- The items of an argument that is no word, and the switch whose value is the next argument. -/
def switchItems (known : List Switch) : Shape → List Item × Option Switch
  | .short letters => shortItems known letters
  | .long name value =>
    match known.find? fun s => s.long = name with
    | none => ([.wrong], none)
    | some s =>
      match value with
      | some value => ([if s.hasValue then .value s value else .wrong], none)
      | none => if s.hasValue then ([], some s) else ([.flag s], none)
  | .word => ([], none)
  | .dashes => ([], none)

/-- Items up to the end of the arguments, or up to a first word where that is asked for; then also
    the arguments from this word on. -/
def readItems (known : List Switch) (stopAtWord : Bool) : List String → List Item × List String
  | [] => ([], [])
  | arg :: rest =>
    match Shape.of arg with
    | .dashes => (rest.map .word, [])
    | .word =>
      if stopAtWord then ([], arg :: rest)
      else
        let (items, left) := readItems known stopAtWord rest
        (.word arg :: items, left)
    | shape =>
      match switchItems known shape with
      | (items, none) =>
        let (more, left) := readItems known stopAtWord rest
        (items ++ more, left)
      | (items, some s) =>
        match rest with
        | [] => (items ++ [.wrong], [])
        | value :: rest =>
          if Shape.of value = .word then
            let (more, left) := readItems known stopAtWord rest
            (items ++ .value s value :: more, left)
          else (items ++ [.wrong], [])

/-! ## Levels -/

/-- What was given at a level. -/
structure Given where
  switches : List (Switch × String)
  words : List String

/-- What the arguments ask for instead of a command. -/
inductive Notice where
  | help
  | version
deriving DecidableEq

namespace Given

def empty : Given := ⟨[], []⟩

/-- The value of a switch; that of a flag is empty. -/
def value (g : Given) (s : Switch) : Option String :=
  (g.switches.find? fun e => e.1 = s).map Prod.snd

def has (g : Given) (s : Switch) : Bool := (g.value s).isSome

/-- Take items in order, `places` being how many words there may be.  Without a result the arguments
    are wrong. -/
def collect (places : Nat) : Given → List Item → Option (Except Notice Given)
  | g, [] => some (.ok g)
  | _, .wrong :: _ => none
  | g, .word text :: rest =>
    if g.words.length < places && text ≠ "" then
      collect places { g with words := g.words ++ [text] } rest
    else none
  | g, .value s text :: rest =>
    if !g.has s && s.accepts text then
      collect places { g with switches := g.switches ++ [(s, text)] } rest
    else none
  | g, .flag s :: rest =>
    if s.kind = .help then some (.error .help)
    else if s.kind = .version then some (.error .version)
    else if g.has s then none
    else collect places { g with switches := g.switches ++ [(s, "")] } rest

def path (g : Given) (s : Switch) : Option Path := (g.value s).map Path.mk

end Given

/-! ## Commands -/

inductive Command where
  | generate (pattern : Path) (output : Option Path) (preview : Bool)
  | preview (program : Path) (colors : Option Nat)
  | initConfig (path : Option Path) (force : Bool)
deriving DecidableEq

/-- What the arguments ask for. -/
inductive Request where
  /-- A command, with the settings file that was named. -/
  | run (config : Option Path) (command : Command)
  | notice (n : Notice)
deriving DecidableEq

/-- A command's name, its own switches, and how many words it takes. -/
structure CommandForm where
  name : String
  switches : List Switch
  places : Nat
  /-- The command, unless something is missing. -/
  build : Given → Option Command

def commandForms : List CommandForm :=
  [{ name := "generate"
     switches := [.output, .preview]
     places := 1
     build := fun g => g.words.head?.map fun word =>
       .generate ⟨word⟩ (g.path .output) (g.has .preview) },
   { name := "preview"
     switches := [.colors]
     places := 1
     build := fun g => g.words.head?.map fun word =>
       .preview ⟨word⟩ ((g.value .colors).bind readCount) },
   { name := "init-config"
     switches := [.force]
     places := 1
     build := fun g => some (.initConfig (g.words.head?.map Path.mk) (g.has .force)) }]

/-- Whether the arguments behind a request for help are as they may be. -/
def isHelpTopic : List String → Bool
  | [] => true
  | [name] => name = "help" || commandForms.any fun f => f.name = name
  | _ => false

/-- The request of a command's arguments.  A settings file that is named here goes before one that
    was named in front of the command. -/
def readCommand (config : Option Path) (form : CommandForm) (args : List String) :
    Option Request := do
  let (items, _) := readItems ([.config, .help] ++ form.switches) false args
  match ← Given.empty.collect form.places items with
  | .error notice => return .notice notice
  | .ok g =>
    let command ← form.build g
    return .run ((g.path .config).or config) command

/-- The request of the program's arguments; none if they are wrong. -/
def readArguments (args : List String) : Option Request := do
  let (items, left) := readItems [.config, .help, .version] true args
  match ← Given.empty.collect 0 items with
  | .error notice => return .notice notice
  | .ok g =>
    match left with
    | [] => none
    | name :: rest =>
      match commandForms.find? fun f => f.name = name with
      | some form => readCommand (g.path .config) form rest
      | none => if name = "help" && isHelpTopic rest then some (.notice .help) else none

example : readArguments ["-ca", "generate", "p", "-o=q", "--config", "b"] =
    some (.run (some ⟨"b"⟩) (.generate ⟨"p"⟩ (some ⟨"q"⟩) false)) := by decide +kernel
example : readArguments ["preview", "--colors=-1", "p"] = none := by decide +kernel

end Embroidery
