import SplitDns.Settings.Load

/-!
# Command line arguments

`-c FILE`, `-l ADDRESS` and `--log-level LEVEL` set something, each at most once; `-h` and `-V` are
answered as soon as they are read. A value may be joined to its option.
-/

namespace SplitDns.Cli

structure Options where
  config : Option Text
  listen : Option Text
  logLevel : Option Text
  deriving DecidableEq, Repr, Inhabited

inductive Arguments where
  | run (options : Options)
  | help
  | version
  | usage
  deriving DecidableEq, Repr, Inhabited

/-- What can be set. -/
inductive Key where
  | config
  | listen
  | logLevel
  deriving DecidableEq, Repr, Inhabited

namespace Options

def none : Options :=
  ⟨.none, .none, .none⟩

/-- Sets what was not set yet. -/
def set? (o : Options) : Key → Text → Option Options
  | .config, v => if o.config.isSome then .none else some { o with config := v }
  | .listen, v => if o.listen.isSome then .none else some { o with listen := v }
  | .logLevel, v => if o.logLevel.isSome then .none else some { o with logLevel := v }

end Options

def longKey? (name : Text) : Option Key :=
  if name = "config".toList then some .config
  else if name = "listen".toList then some .listen
  else if name = "log-level".toList then some .logLevel
  else none

def shortKey? (c : Char) : Option Key :=
  if c = 'c' then some .config else if c = 'l' then some .listen else none

/-- One argument, read on its own. -/
inductive Word where
  | option (key : Key)
  | setting (key : Key) (value : Text)
  | help
  | version
  /-- Everything after it stands for itself. -/
  | escape
  | other
  deriving DecidableEq, Repr, Inhabited

def longWord (body : Text) : Word :=
  match Text.cutFirst? '=' body with
  | some (name, value) => (longKey? name).elim .other (.setting · value)
  | none =>
    if body = "help".toList then .help
    else if body = "version".toList then .version
    else (longKey? body).elim .other .option

/-- The value joined to a short option; an equals sign before it is left out. -/
def joined : Text → Text
  | '=' :: r => r
  | r => r

def word : Text → Word
  | ['-', '-'] => .escape
  | '-' :: '-' :: body => longWord body
  | '-' :: 'h' :: _ => .help
  | '-' :: 'V' :: _ => .version
  | '-' :: c :: r =>
    match shortKey? c with
    | none => .other
    | some key => if r.isEmpty then .option key else .setting key (joined r)
  | _ => .other

/-- Values do not look like options. -/
def isValue (t : Text) : Bool :=
  t.head? != some '-' || t == ['-']

def parseFrom (o : Options) : List Text → Arguments
  | [] => .run o
  | t :: rest =>
    match word t, rest with
    | .help, _ => .help
    | .version, _ => .version
    | .escape, [] => .run o
    | .escape, _ :: _ => .usage
    | .other, _ => .usage
    | .setting key value, rest =>
      match o.set? key value with
      | some o => parseFrom o rest
      | none => .usage
    | .option _, [] => .usage
    | .option key, value :: rest =>
      if isValue value then
        match o.set? key value with
        | some o => parseFrom o rest
        | none => .usage
      else .usage

def parse (args : List Text) : Arguments :=
  parseFrom .none args

def Options.overrides (o : Options) : Settings.Overrides :=
  ⟨o.listen, o.logLevel⟩

end SplitDns.Cli
