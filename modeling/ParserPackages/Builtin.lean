import ParserPackages.Script.Hook

/-! # Built-in packages

`base` holds the core handler maps, stack items and fallbacks, `ams` the maps, tags and options of
AMS mathematics, `newcommand` the macros of the user, and `noundefined` renders undefined macros
instead of failing. The maps of user macros come from a local package that an init hook appends,
so that they stand in front. -/

namespace ParserPackages.Builtin

def operatorsHook : Hook := ⟨0⟩

def definitionsHook : Hook := ⟨1⟩

def firstFreeHook : Nat := 2

/-- How many serial numbers the built-in packages and their rules take. -/
def serialCount : Nat := 32

def baseKinds : List String :=
  ["start", "stop", "open", "close", "prime", "subsup", "over", "left", "right", "begin", "end",
    "style", "position", "cell", "array", "equation"]

/-- The draft of `base`, its rules numbered from `serial`. -/
def baseDraft (serial : Nat) : Draft Hook Filter :=
  let draft : Draft Hook Filter := Draft.ofName "base"
    |>.addHandlers .character ["command", "special", "letter", "digit"]
    |>.addHandlers .delimiter ["delimiter"]
    |>.addHandlers .command
      ["delimiter", "macros", "lcGreek", "ucGreek", "mathchar0mi", "mathchar0mo", "mathchar7"]
    |>.addHandlers .environment ["environment"]
    |>.setFallback .character (.named serial "base.Other")
    |>.setFallback .command (.named (serial + 1) "base.csUndefined")
    |>.setFallback .environment (.named (serial + 2) "base.envUndefined")
    |>.setTag "base" (.named (serial + 3) "base.BaseTags")
    |>.setOptions (.ofFields [
      ("maxMacros", .int 1000),
      ("maxBuffer", .int 5120),
      ("tags", .str "none"),
      ("tagSide", .str "right"),
      ("tagIndent", .str "0.8em")])
    |>.addProcessor .before ⟨⟨[.replace "\r\n" "\n"], .proceed⟩, none⟩
    |>.addProcessor .after ⟨⟨[.trimEnd], .proceed⟩, some (-4)⟩
  baseKinds.zipIdx.foldl
    (fun draft (kind, i) => draft.setStackItem kind (.named (serial + 4 + i) ("base." ++ kind)))
    draft

/-- The local package of `ams`. -/
def operatorsDraft : Draft Hook Filter :=
  Draft.ofLocal
    |>.addHandlers .command ["AMSmath-operator"]
    |>.withPriority (-1)

def amsDraft (serial : Nat) : Draft Hook Filter :=
  Draft.ofName "ams"
    |>.addHandlers .character ["AMSmath-operatorLetter"]
    |>.addHandlers .delimiter ["AMSsymbols-delimiter", "AMSmath-delimiter"]
    |>.addHandlers .command
      ["AMSsymbols-mathchar0mi", "AMSsymbols-mathchar0mo", "AMSsymbols-delimiter",
        "AMSsymbols-macros", "AMSmath-mathchar0mo", "AMSmath-macros", "AMSmath-delimiter"]
    |>.addHandlers .environment ["AMSmath-environment"]
    |>.setStackItem "multline" (.named serial "ams.MultlineItem")
    |>.setStackItem "flalign" (.named (serial + 1) "ams.FlalignItem")
    |>.setTag "ams" (.named (serial + 2) "ams.AmsTags")
    |>.setOptions (.ofFields [
      ("multlineWidth", .str ""),
      ("ams", .obj [("multlineWidth", .str "100%"), ("multlineIndent", .str "1em")])])
    |>.setInit operatorsHook none

def definitionsDraft : Draft Hook Filter :=
  Draft.ofLocal
    |>.addHandlers .delimiter ["new-Delimiter"]
    |>.addHandlers .command ["new-Delimiter", "new-Command"]
    |>.addHandlers .environment ["new-Environment"]
    |>.withPriority (-1)

def newcommandDraft (serial : Nat) : Draft Hook Filter :=
  Draft.ofName "newcommand"
    |>.addHandlers .command ["Newcommand-macros"]
    |>.setStackItem "beginEnv" (.named serial "newcommand.BeginEnvItem")
    |>.setOption "maxMacros" (.int 1000)
    |>.setInit definitionsHook none

def noundefinedDraft (serial : Nat) : Draft Hook Filter :=
  Draft.ofName "noundefined"
    |>.setFallback .command (.named serial "noundefined.Undefined")
    |>.setOption "noundefined"
      (.obj [("color", .str "red"), ("background", .str ""), ("size", .str "")])

def drafts (serial : Nat) : List (Draft Hook Filter) :=
  [baseDraft serial, amsDraft (serial + 20), newcommandDraft (serial + 23),
    noundefinedDraft (serial + 24)]

/-- Builds drafts in turn, numbers the packages from `serial` and adds them. -/
def addAll (registry : Registry Hook Filter) (serial : Nat) :
    List (Draft Hook Filter) → Except Fault (Registry Hook Filter)
  | [] => .ok registry
  | draft :: rest => do
    let (_, registry) ← registry.define draft serial
    addAll registry (serial + 1) rest

/-- Registers the built-in packages, which take `serialCount` numbers from `serial`. -/
def register (registry : Registry Hook Filter) (serial : Nat) :
    Except Fault (Registry Hook Filter) :=
  addAll registry (serial + 25) (drafts serial)

def registry : Except Fault (Registry Hook Filter) := register .empty 0

def appendScript (draft : Draft Hook Filter) : Script :=
  match draft.build 0 with
  | .ok package => ⟨[.append package], .proceed⟩
  | .error _ => ⟨[], .proceed⟩

def script? (hook : Hook) : Option Script :=
  if hook = operatorsHook then some (appendScript operatorsDraft)
  else if hook = definitionsHook then some (appendScript definitionsDraft)
  else none

def library : ScriptLibrary := ⟨script?, fun _ => none⟩

end ParserPackages.Builtin
