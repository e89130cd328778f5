import ParserPackages.Configuration.Basic
import ParserPackages.Json.Printer

/-! # Summaries

What can be shown of a configuration: labels, names and priorities in place of rules and
callables. The text has one fact a line. -/

namespace ParserPackages

/-- What can be shown of a configuration. -/
structure Summary where
  packages : List String
  handlers : HandlerLists
  fallbacks : ByCategory (Option String)
  stackItems : KeyMap String
  tags : KeyMap String
  nodeFactories : KeyMap String
  options : OptionTree
  preprocessors : List (Option Priority)
  postprocessors : List (Option Priority)
  initHooks : List Priority
  readyHooks : List Priority

def KeyMap.map {α β : Type} (f : α → β) (m : KeyMap α) : KeyMap β :=
  ⟨m.pairs.map fun p => (p.1, f p.2), by
    simpa [Keyed.Ascending, List.pairwise_map] using m.ascending⟩

namespace Summary

variable {H F : Type}

def ofConfiguration (c : Configuration H F) : Summary where
  packages := c.packages
  handlers := c.handlers
  fallbacks := c.fallbacks.map fun rule? => rule?.map (·.label)
  stackItems := c.stackItems.map (·.label)
  tags := c.tags.map (·.label)
  nodeFactories := c.nodeFactories.map (·.label)
  options := c.options
  preprocessors := c.preprocessors.map (·.priority?)
  postprocessors := c.postprocessors.map (·.priority?)
  initHooks := c.initChain.priorities
  readyHooks := c.readyChain.priorities

/-- Shows these options in place of the merged defaults. -/
def withOptions (s : Summary) (options : OptionTree) : Summary := { s with options }

mutual
/-- A line for every leaf of an option: a value that is no object, or an empty object. -/
def leafLines (path : String) : Json → List String
  | .obj (field :: rest) => leafLinesOfFields path (field :: rest)
  | value => ["option " ++ path ++ " = " ++ value.compact]

def leafLinesOfFields (path : String) : Fields → List String
  | [] => []
  | (key, value) :: rest => leafLines (path ++ "." ++ key) value ++ leafLinesOfFields path rest
end

def optionLines (t : OptionTree) : List String := t.fields.flatMap fun f => leafLines f.1 f.2

/-- A line for every processor of a stage, numbered from `start`. -/
def processorLines (stage : String) (start : Nat) : List (Option Priority) → List String
  | [] => []
  | none :: rest => (stage ++ " #" ++ toString start) :: processorLines stage (start + 1) rest
  | some priority :: rest =>
    (stage ++ " #" ++ toString start ++ " priority " ++ toString priority) ::
      processorLines stage (start + 1) rest

def priorityList (priorities : List Priority) : String :=
  "[" ++ Text.join ", " (priorities.map toString) ++ "]"

def labelLines (what : String) (labels : KeyMap String) : List String :=
  labels.pairs.map fun (key, label) => what ++ " " ++ key ++ ": " ++ label

def fallbackLines (fallbacks : ByCategory (Option String)) : List String :=
  fallbacks.toList.filterMap fun (category, label?) =>
    label?.map fun label => "fallback " ++ category.name ++ ": " ++ label

def textLines (s : Summary) : List String :=
  ["packages: " ++ Text.join ", " s.packages] ++
    s.handlers.toList.map (fun (category, names) =>
      "handler " ++ category.name ++ ": " ++ Text.join ", " names) ++
    fallbackLines s.fallbacks ++
    labelLines "stack item" s.stackItems ++
    labelLines "tags" s.tags ++
    labelLines "node" s.nodeFactories ++
    optionLines s.options ++
    processorLines "preprocessor" 0 s.preprocessors ++
    processorLines "postprocessor" 0 s.postprocessors ++
    ["init hooks: " ++ priorityList s.initHooks, "ready hooks: " ++ priorityList s.readyHooks]

def toText (s : Summary) : String := Text.join "\n" s.textLines

def priorityJson (priority : Priority) : Json := .int priority.toInt

def labelsJson (labels : KeyMap String) : Json :=
  .obj (labels.pairs.map fun (key, label) => (key, .str label))

def namesJson (names : List String) : Json := .arr (names.map .str)

def handlersJson (handlers : HandlerLists) : Json :=
  .obj (handlers.toList.map fun (category, names) => (category.name, namesJson names))

def fallbacksJson (fallbacks : ByCategory (Option String)) : Json :=
  .obj (fallbacks.toList.filterMap fun (category, label?) =>
    label?.map fun label => (category.name, .str label))

def processorsJson (priorities : List (Option Priority)) : Json :=
  .arr (priorities.map fun
    | none => .null
    | some priority => priorityJson priority)

def toJson (s : Summary) : Json :=
  .obj [("packages", namesJson s.packages),
    ("handlers", handlersJson s.handlers),
    ("fallbacks", fallbacksJson s.fallbacks),
    ("stack_items", labelsJson s.stackItems),
    ("tags", labelsJson s.tags),
    ("node_factories", labelsJson s.nodeFactories),
    ("options", s.options.toJson),
    ("preprocessors", processorsJson s.preprocessors),
    ("postprocessors", processorsJson s.postprocessors),
    ("init_hooks", .arr (s.initHooks.map priorityJson)),
    ("ready_hooks", .arr (s.readyHooks.map priorityJson))]

end Summary

def Configuration.summary {H F : Type} (c : Configuration H F) : Summary := .ofConfiguration c

end ParserPackages
