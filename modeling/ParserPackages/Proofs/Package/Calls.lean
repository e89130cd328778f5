import Mathlib.Data.List.TakeWhile
import ParserPackages.Proofs.OptionTree.Layers
import ParserPackages.Proofs.Package.WellNamed

/-!
# Packages by the calls that describe them

A package is described by calls in any order and any number, and then built. Lists hold everything
that was given, in the order of the calls; of anything else the last call counts, whatever came
before or after it. Building makes its checks in a fixed order and reports the first one that finds
a blank name, with its place where the names are a list.
-/
namespace ParserPackages

variable {H F α : Type}

/-! ## Blank names -/

namespace Text

def trim (s : String) : String := trimEnd (String.ofList (s.toList.dropWhile isSpace))

theorem trimEnd_eq_empty_iff (s : String) :
    trimEnd s = "" ↔ ∀ c ∈ s.toList, isSpace c = true := by
  rw [trimEnd, ← String.toList_eq_nil_iff, String.toList_ofList, List.reverse_eq_nil_iff,
    List.dropWhile_eq_nil_iff]
  simp only [List.mem_reverse]

/-- A blank text is one of which trimming leaves nothing. -/
theorem trim_eq_empty_iff (s : String) : trim s = "" ↔ isBlank s = true := by
  rw [trim, trimEnd_eq_empty_iff, String.toList_ofList, isBlank_iff]
  constructor
  · intro h c hc
    rw [← s.toList.takeWhile_append_dropWhile (p := isSpace)] at hc
    rcases List.mem_append.1 hc with hc | hc
    · exact List.mem_takeWhile_imp hc
    · exact h c hc
  · exact fun h c hc => h c ((List.dropWhile_sublist isSpace).mem hc)

end Text

/-! ## Calls -/

inductive RuleTable where
  | stackItems
  | tags
  | nodeFactories
  deriving DecidableEq

def Package.rules (package : Package H F) : RuleTable → RuleMap
  | .stackItems => package.stackItems
  | .tags => package.tags
  | .nodeFactories => package.nodeFactories

def Package.processors (package : Package H F) : Stage → List (Processor F)
  | .before => package.preprocessors
  | .after => package.postprocessors

namespace Draft

def rules (d : Draft H F) : RuleTable → RuleMap
  | .stackItems => d.stackItems
  | .tags => d.tags
  | .nodeFactories => d.nodeFactories

def processors (d : Draft H F) : Stage → List (Processor F)
  | .before => d.preprocessors
  | .after => d.postprocessors

inductive Call (H F : Type) where
  | priority (value : Priority)
  | parser (name : String)
  | handlers (category : Category) (names : List String)
  | fallback (category : Category) (value : Rule)
  | stackItem (kind : String) (value : Rule)
  | tag (scheme : String) (value : Rule)
  | nodeFactory (kind : String) (value : Rule)
  | option (name : String) (value : Json)
  | options (tree : OptionTree)
  | preprocessor (value : Processor F)
  | postprocessor (value : Processor F)
  | init (hook : H) (priority? : Option Priority)
  | ready (hook : ReadyHook H) (priority? : Option Priority)

def call (d : Draft H F) : Call H F → Draft H F
  | .priority value => d.withPriority value
  | .parser name => d.withParser name
  | .handlers category names => d.addHandlers category names
  | .fallback category value => d.setFallback category value
  | .stackItem kind value => d.setStackItem kind value
  | .tag scheme value => d.setTag scheme value
  | .nodeFactory kind value => d.setNodeFactory kind value
  | .option name value => d.setOption name value
  | .options tree => d.setOptions tree
  | .preprocessor value => d.addProcessor .before value
  | .postprocessor value => d.addProcessor .after value
  | .init hook priority? => d.setInit hook priority?
  | .ready hook priority? => d.setReady hook priority?

def ofCalls (name : String) (calls : List (Call H F)) : Draft H F := calls.foldl call (ofName name)

namespace Call

/-! What a call gives of each part of a package. -/

def priority? : Call H F → Option Priority
  | .priority value => some value
  | _ => none

def parser? : Call H F → Option String
  | .parser name => some name
  | _ => none

def handlersOf (category : Category) : Call H F → List String
  | .handlers c names => if category = c then names else []
  | _ => []

def fallbackOf? (category : Category) : Call H F → Option Rule
  | .fallback c value => if category = c then some value else none
  | _ => none

/-- The key and the rule that a call puts into a table. -/
def ruleOf? : RuleTable → Call H F → Option (String × Rule)
  | .stackItems, .stackItem kind value => some (kind, value)
  | .tags, .tag scheme value => some (scheme, value)
  | .nodeFactories, .nodeFactory kind value => some (kind, value)
  | _, _ => none

def ruleAt? (table : RuleTable) (key : String) (c : Call H F) : Option Rule :=
  match c.ruleOf? table with
  | some (k, value) => if key = k then some value else none
  | none => none

/-- The options that a call declares. Their values are kept in normal form. -/
def declares : Call H F → OptionTree
  | .option name value => .set .empty name value
  | .options tree => tree
  | _ => .empty

def processorsOf : Stage → Call H F → List (Processor F)
  | .before, .preprocessor value => [value]
  | .after, .postprocessor value => [value]
  | _, _ => []

def init? : Call H F → Option (H × Option Priority)
  | .init hook priority? => some (hook, priority?)
  | _ => none

def ready? : Call H F → Option (ReadyHook H × Option Priority)
  | .ready hook priority? => some (hook, priority?)
  | _ => none

end Call

/-- What the last call gives that gives anything. -/
def lastGiven (view : Call H F → Option α) (calls : List (Call H F)) : Option α :=
  calls.reverse.findSome? view

theorem isSome_lastGiven {view : Call H F → Option α} {calls : List (Call H F)} :
    (lastGiven view calls).isSome ↔ ∃ c ∈ calls, (view c).isSome := by
  simp [lastGiven, List.findSome?_isSome_iff]

/-! ## One call -/

section Step

variable (d : Draft H F) (c : Call H F)

theorem name_call : (d.call c).name = d.name := by cases c <;> rfl

theorem priority_call : some (d.call c).priority = c.priority?.or (some d.priority) := by
  cases c <;> rfl

theorem parser_call : some (d.call c).parser = c.parser?.or (some d.parser) := by
  cases c <;> rfl

theorem init_call : (d.call c).init? = c.init?.or d.init? := by cases c <;> rfl

theorem ready_call : (d.call c).ready? = c.ready?.or d.ready? := by cases c <;> rfl

theorem handlers_call (category : Category) :
    (d.call c).handlers.get category = d.handlers.get category ++ c.handlersOf category := by
  cases c with
  | handlers other names =>
    by_cases h : category = other
    · subst h
      simp [call, addHandlers, HandlerLists.extend, Call.handlersOf]
    · simp [call, addHandlers, HandlerLists.extend, Call.handlersOf, ByCategory.get_set_of_ne h, h]
  | _ => exact (List.append_nil _).symm

theorem fallbacks_call (category : Category) :
    (d.call c).fallbacks.get category =
      (c.fallbackOf? category).or (d.fallbacks.get category) := by
  cases c with
  | fallback other value =>
    by_cases h : category = other
    · subst h
      simp [call, setFallback, Call.fallbackOf?]
    · simp [call, setFallback, Call.fallbackOf?, ByCategory.get_set_of_ne h, h]
  | _ => rfl

theorem processors_call (stage : Stage) :
    (d.call c).processors stage = d.processors stage ++ c.processorsOf stage := by
  cases stage with
  | before =>
    cases c with
    | preprocessor value => rfl
    | _ => exact (List.append_nil _).symm
  | after =>
    cases c with
    | postprocessor value => rfl
    | _ => exact (List.append_nil _).symm

theorem rules_call (table : RuleTable) (key : String) :
    ((d.call c).rules table).get? key = (c.ruleAt? table key).or ((d.rules table).get? key) := by
  cases table with
  | stackItems =>
    cases c with
    | stackItem kind value => exact d.stackItems.get?_insert kind key value
    | _ => rfl
  | tags =>
    cases c with
    | tag scheme value => exact d.tags.get?_insert scheme key value
    | _ => rfl
  | nodeFactories =>
    cases c with
    | nodeFactory kind value => exact d.nodeFactories.get?_insert kind key value
    | _ => rfl

theorem options_call (name : String) :
    (d.call c).options.get? name = (c.declares.get? name).or (d.options.get? name) := by
  cases c with
  | option other value =>
    change (Keyed.put other value.normalize d.options.fields).lookup name =
      ((Keyed.put other value.normalize []).lookup name).or _
    rw [Keyed.lookup_put, Keyed.lookup_put]
    split <;> rfl
  | options tree => exact d.options.get?_overwrite tree name
  | _ => rfl

end Step

/-! ## All calls -/

section All

variable (part : Draft H F → Option α) (view : Call H F → Option α)

/-- Where each call gives a new value or leaves the old one, the last value given counts. -/
theorem foldl_call_or (h : ∀ d c, part (d.call c) = (view c).or (part d)) (d : Draft H F)
    (calls : List (Call H F)) :
    part (calls.foldl call d) = (lastGiven view calls).or (part d) := by
  induction calls generalizing d with
  | nil => rfl
  | cons c calls ih =>
    rw [List.foldl_cons, ih, h, lastGiven, lastGiven, List.reverse_cons, List.findSome?_append,
      List.findSome?_singleton, Option.or_assoc]

/-- Where each call adds to a list, everything given is listed in the order of the calls. -/
theorem foldl_call_append (part : Draft H F → List α) (view : Call H F → List α)
    (h : ∀ d c, part (d.call c) = part d ++ view c) (d : Draft H F) (calls : List (Call H F)) :
    part (calls.foldl call d) = part d ++ calls.flatMap view := by
  induction calls generalizing d with
  | nil => exact (List.append_nil _).symm
  | cons c calls ih => rw [List.foldl_cons, ih, h, List.append_assoc, List.flatMap_cons]

variable (name : String) (calls : List (Call H F))

theorem name_ofCalls : (ofCalls name calls).name = name := by
  have h (d : Draft H F) : (calls.foldl call d).name = d.name := by
    induction calls generalizing d with
    | nil => rfl
    | cons c calls ih => rw [List.foldl_cons, ih, name_call]
  exact h (ofName name)

theorem priority_ofCalls :
    (ofCalls name calls).priority = (lastGiven Call.priority? calls).getD defaultPriority := by
  have h := foldl_call_or (fun d => some d.priority) Call.priority? priority_call (ofName name)
    calls
  rw [Option.or_some] at h
  exact Option.some.inj h

theorem parser_ofCalls :
    (ofCalls name calls).parser = (lastGiven Call.parser? calls).getD defaultParser := by
  have h := foldl_call_or (fun d => some d.parser) Call.parser? parser_call (ofName name) calls
  rw [Option.or_some] at h
  exact Option.some.inj h

theorem handlers_ofCalls (category : Category) :
    (ofCalls name calls).handlers.get category = calls.flatMap (·.handlersOf category) := by
  have h := foldl_call_append (·.handlers.get category) (·.handlersOf category)
    (fun d c => handlers_call d c category) (ofName name) calls
  simpa [ofCalls, ofName, HandlerLists.empty] using h

theorem fallbacks_ofCalls (category : Category) :
    (ofCalls name calls).fallbacks.get category = lastGiven (·.fallbackOf? category) calls := by
  have h := foldl_call_or (·.fallbacks.get category) (·.fallbackOf? category)
    (fun d c => fallbacks_call d c category) (ofName name) calls
  simpa [ofCalls, ofName, Fallbacks.empty] using h

theorem rules_ofCalls (table : RuleTable) (key : String) :
    ((ofCalls name calls).rules table).get? key = lastGiven (·.ruleAt? table key) calls := by
  have h := foldl_call_or (fun d => (d.rules table).get? key) (·.ruleAt? table key)
    (fun d c => rules_call d c table key) (ofName name) calls
  have hnone : ((ofName name : Draft H F).rules table).get? key = none := by cases table <;> rfl
  rwa [hnone, Option.or_none] at h

theorem options_ofCalls (option : String) :
    (ofCalls name calls).options.get? option = lastGiven (·.declares.get? option) calls := by
  have h := foldl_call_or (·.options.get? option) (·.declares.get? option)
    (fun d c => options_call d c option) (ofName name) calls
  exact h.trans Option.or_none

theorem processors_ofCalls (stage : Stage) :
    (ofCalls name calls).processors stage = calls.flatMap (·.processorsOf stage) := by
  have h := foldl_call_append (·.processors stage) (·.processorsOf stage)
    (fun d c => processors_call d c stage) (ofName name) calls
  have hnil : (ofName name : Draft H F).processors stage = [] := by cases stage <;> rfl
  rwa [hnil, List.nil_append] at h

theorem init_ofCalls : (ofCalls name calls).init? = lastGiven Call.init? calls :=
  (foldl_call_or (·.init?) Call.init? init_call (ofName name) calls).trans Option.or_none

theorem ready_ofCalls : (ofCalls name calls).ready? = lastGiven Call.ready? calls :=
  (foldl_call_or (·.ready?) Call.ready? ready_call (ofName name) calls).trans Option.or_none

end All

/-! ## Checks -/

inductive Check where
  | name
  | parser
  | handlers (category : Category)
  | rules (table : RuleTable)
  | options

namespace Check

def all : List Check :=
  [.name, .parser] ++ Category.all.map .handlers ++
    [.rules .stackItems, .rules .tags, .rules .nodeFactories, .options]

theorem mem_all (check : Check) : check ∈ all := by
  cases check with
  | name | parser | options => simp [all]
  | handlers category => simp [all, Category.mem_all]
  | rules table => cases table <;> simp [all]

/-- The names that a check looks at, as they were given. -/
def given (name : String) (calls : List (Call H F)) : Check → List String
  | .name => [name]
  | .parser => [(lastGiven Call.parser? calls).getD defaultParser]
  | .handlers category => calls.flatMap (·.handlersOf category)
  | .rules table => calls.filterMap fun c => (c.ruleOf? table).map (·.1)
  | .options => calls.flatMap (·.declares.names)

def fault (name : String) (position : Nat) : Check → Fault
  | .name => .emptyName .package
  | .parser => .malformed name .blankParser
  | .handlers category => .malformed name (.blankHandlerMap category position)
  | .rules .stackItems => .malformed name .blankStackItem
  | .rules .tags => .malformed name .blankTagScheme
  | .rules .nodeFactories => .malformed name .blankNodeFactory
  | .options => .malformed name .blankOption

/-- What a check reports: the fault of its first blank name. -/
def fault? (name : String) (calls : List (Call H F)) (check : Check) : Option Fault :=
  ((check.given name calls).findIdx? fun s => Text.trim s = "").map (check.fault name ·)

theorem fault?_eq_none_iff {name : String} {calls : List (Call H F)} {check : Check} :
    check.fault? name calls = none ↔ ∀ given ∈ check.given name calls, Text.trim given ≠ "" := by
  simp [fault?]

end Check

def fault? (d : Draft H F) : Option Fault :=
  if Text.isBlank d.name then some (.emptyName .package) else d.defect?.map (.malformed d.name)

theorem build_eq (d : Draft H F) (serial : Nat) :
    d.build serial =
      match d.fault? with
      | some fault => .error fault
      | none => .ok (d.frozen serial) := by
  rw [build, fault?, Fault.requireName]
  split
  · rfl
  · cases d.defect? <;> rfl

def faultOf? (d : Draft H F) (check : Check) : Option Fault :=
  match check with
  | .name => if Text.isBlank d.name then some (check.fault d.name 0) else none
  | .parser => if Text.isBlank d.parser then some (check.fault d.name 0) else none
  | .handlers category =>
    ((d.handlers.get category).findIdx? Text.isBlank).map (check.fault d.name ·)
  | .rules table =>
    if (d.rules table).keys.any Text.isBlank then some (check.fault d.name 0) else none
  | .options => if d.options.names.any Text.isBlank then some (check.fault d.name 0) else none

/-- The nested checks of a draft are made one after the other. -/
theorem fault?_eq_findSome? (d : Draft H F) : d.fault? = Check.all.findSome? d.faultOf? := by
  have hhandlers : (Category.all.map Check.handlers).findSome? d.faultOf? =
      (blankHandlerMap? d.handlers).map (.malformed d.name) := by
    rw [blankHandlerMap?, ByCategory.toList, List.findSome?_map, List.findSome?_map,
      List.map_findSome?]
    simp only [Function.comp_def, faultOf?, Check.fault, Option.map_map]
  rw [Check.all, List.findSome?_append, List.findSome?_append, hhandlers, fault?, defect?]
  simp only [List.findSome?_cons, List.findSome?_nil, faultOf?, Check.fault, rules]
  generalize blankHandlerMap? d.handlers = handlers
  -- each check either reports or leaves the rest to those behind it
  cases Text.isBlank d.name with
  | true => rfl
  | false =>
    cases Text.isBlank d.parser with
    | true => rfl
    | false =>
      cases handlers with
      | some defect => rfl
      | none =>
        by_cases hstackItems : d.stackItems.keys.any Text.isBlank = true
        · simp [hstackItems]
        · by_cases htags : d.tags.keys.any Text.isBlank = true
          · simp [hstackItems, htags]
          · by_cases hfactories : d.nodeFactories.keys.any Text.isBlank = true
            · simp [hstackItems, htags, hfactories]
            · by_cases hoptions : d.options.names.any Text.isBlank = true <;>
                simp [hstackItems, htags, hfactories, hoptions]

theorem mem_keys_ofCalls (name : String) (calls : List (Call H F)) (table : RuleTable)
    (key : String) :
    key ∈ ((ofCalls name calls).rules table).keys ↔
      key ∈ Check.given name calls (.rules table) := by
  rw [KeyMap.mem_keys, KeyMap.contains, rules_ofCalls, isSome_lastGiven, Check.given,
    List.mem_filterMap]
  refine exists_congr fun c => and_congr_right fun _ => ?_
  rw [Call.ruleAt?]
  cases c.ruleOf? table with
  | none => simp
  | some rule =>
    obtain ⟨k, value⟩ := rule
    by_cases h : key = k
    · simp [h]
    · simp [h, Ne.symm h]

theorem mem_names_ofCalls (name : String) (calls : List (Call H F)) (option : String) :
    option ∈ (ofCalls name calls).options.names ↔ option ∈ Check.given name calls .options := by
  rw [OptionTree.mem_names, OptionTree.contains, options_ofCalls, isSome_lastGiven, Check.given,
    List.mem_flatMap]
  exact exists_congr fun c => and_congr_right fun _ => OptionTree.mem_names.symm

/-- A check whose fault has no position only looks for some blank name. -/
theorem map_findIdx?_const (p : String → Bool) (names : List String) (fault : Fault) :
    (names.findIdx? p).map (fun _ => fault) = if names.any p then some fault else none := by
  rw [← List.findIdx?_isSome]
  cases names.findIdx? p with
  | none => rfl
  | some i => rfl

/-- Checking the draft is checking what was given: keys that were given twice do not matter. -/
theorem faultOf?_ofCalls (name : String) (calls : List (Call H F)) (check : Check) :
    (ofCalls name calls).faultOf? check = check.fault? name calls := by
  have hblank : (fun s => decide (Text.trim s = "")) = Text.isBlank := by
    funext s
    rw [Bool.eq_iff_iff, decide_eq_true_iff, Text.trim_eq_empty_iff]
  rw [Check.fault?, hblank]
  cases check with
  | name =>
    refine .trans ?_ (map_findIdx?_const Text.isBlank [name] _).symm
    rw [faultOf?, name_ofCalls, List.any_cons, List.any_nil, Bool.or_false]
    rfl
  | parser =>
    refine .trans ?_ (map_findIdx?_const Text.isBlank _ _).symm
    rw [faultOf?, parser_ofCalls, name_ofCalls, Check.given, List.any_cons, List.any_nil,
      Bool.or_false]
    rfl
  | handlers category =>
    rw [faultOf?, handlers_ofCalls, name_ofCalls]
    rfl
  | rules table =>
    have hany : ((ofCalls name calls).rules table).keys.any Text.isBlank =
        (Check.given name calls (.rules table)).any Text.isBlank := by
      rw [Bool.eq_iff_iff, List.any_eq_true, List.any_eq_true]
      simp only [mem_keys_ofCalls]
    rw [faultOf?, hany, name_ofCalls, ← map_findIdx?_const]
    cases table <;> rfl
  | options =>
    have hany : (ofCalls name calls).options.names.any Text.isBlank =
        (Check.given name calls .options).any Text.isBlank := by
      rw [Bool.eq_iff_iff, List.any_eq_true, List.any_eq_true]
      simp only [mem_names_ofCalls]
    rw [faultOf?, hany, name_ofCalls, ← map_findIdx?_const]
    rfl

theorem findSome?_checks (name : String) (calls : List (Call H F)) :
    Check.all.findSome? (·.fault? name calls) = (ofCalls name calls).fault? := by
  rw [fault?_eq_findSome?, funext (faultOf?_ofCalls name calls)]

end Draft

structure Package.DescribedBy (package : Package H F) (name : String)
    (calls : List (Draft.Call H F)) : Prop where
  name : package.name = name
  parser : package.parser = (Draft.lastGiven (·.parser?) calls).getD defaultParser
  priority : package.priority = (Draft.lastGiven (·.priority?) calls).getD defaultPriority
  handlers : ∀ category,
    package.handlers.get category = calls.flatMap (·.handlersOf category)
  fallbacks : ∀ category,
    package.fallbacks.get category = Draft.lastGiven (·.fallbackOf? category) calls
  rules : ∀ table key,
    (package.rules table).get? key = Draft.lastGiven (·.ruleAt? table key) calls
  options : ∀ option,
    package.options.get? option = Draft.lastGiven (·.declares.get? option) calls
  processors : ∀ stage, package.processors stage = calls.flatMap (·.processorsOf stage)
  /-- A hook that was given no priority takes that of the package. -/
  init? : package.init? = (Draft.lastGiven (·.init?) calls).map fun (hook, priority?) =>
    ⟨hook, priority?.getD package.priority⟩
  ready? : package.ready? = (Draft.lastGiven (·.ready?) calls).map fun (hook, priority?) =>
    ⟨hook, priority?.getD package.priority⟩

namespace Draft

theorem describedBy_frozen (name : String) (calls : List (Call H F)) (serial : Nat) :
    ((ofCalls name calls).frozen serial).DescribedBy name calls where
  name := name_ofCalls name calls
  parser := parser_ofCalls name calls
  priority := priority_ofCalls name calls
  handlers := handlers_ofCalls name calls
  fallbacks := fallbacks_ofCalls name calls
  rules table key := by
    rw [← rules_ofCalls name]
    cases table <;> rfl
  options := options_ofCalls name calls
  processors stage := by
    rw [← processors_ofCalls name]
    cases stage <;> rfl
  init? := by rw [← init_ofCalls name]; rfl
  ready? := by rw [← ready_ofCalls name]; rfl

/-- Whatever calls describe a package, building it succeeds exactly if none of the names that are
checked is blank: its own, that of its parser, those of handler maps, the keys of rules and the
names of options. Otherwise it fails as the first check does that finds a blank name. What is built
holds the handler maps and the processors in the order of the calls, and of everything else what
the last call gave; hooks without a priority have that of the package, whenever it was given. -/
theorem built_as_described (name : String) (calls : List (Call H F)) (serial : Nat) :
    ((∃ package, (ofCalls name calls).build serial = .ok package) ↔
      ∀ check : Check, ∀ given ∈ check.given name calls, Text.trim given ≠ "") ∧
    (∀ fault, (ofCalls name calls).build serial = .error fault ↔
      Check.all.findSome? (·.fault? name calls) = some fault) ∧
    ∀ package, (ofCalls name calls).build serial = .ok package →
      package.DescribedBy name calls := by
  have hfault : (∀ check : Check, ∀ given ∈ check.given name calls, Text.trim given ≠ "") ↔
      Check.all.findSome? (·.fault? name calls) = none := by
    simp [List.findSome?_eq_none_iff, Check.mem_all, Check.fault?_eq_none_iff]
  have hbuild := build_eq (ofCalls name calls) serial
  rw [← findSome?_checks] at hbuild
  rw [hfault, hbuild]
  cases Check.all.findSome? (·.fault? name calls) with
  | some fault => simp
  | none =>
    refine ⟨by simp, by simp, ?_⟩
    rintro package ⟨⟩
    exact describedBy_frozen name calls serial

end Draft

namespace Sample

/-- The second hook takes the place of the first and of its priority, the priority of the package
comes after both. -/
def outdone : List (Draft.Call Nat Nat) :=
  [.handlers .delimiter ["ams-open"], .init 1 (some 3), .tag "ams" (.named 0 "none"),
    .option "multlineWidth" (.int 100), .priority 4, .init 2 none,
    .handlers .command ["ams-macros"], .tag "ams" (.named 1 "all"),
    .handlers .delimiter ["ams-close"], .priority 12]

/-- The blank option comes first, the blank handler map is found first. -/
def withBlanks : List (Draft.Call Nat Nat) :=
  outdone ++ [.option " " .null, .handlers .delimiter ["", "ams-end"]]

end Sample

open Sample Draft in
theorem late_priority_of_replaced_hook :
    (∀ check : Check, ∀ given ∈ check.given "ams" outdone, Text.trim given ≠ "") ∧
      (∃ package, (ofCalls "ams" outdone).build 0 = .ok package ∧
        package.handlers.get .delimiter = ["ams-open", "ams-close"] ∧
        package.tags.get? "ams" = some (.named 1 "all") ∧
        package.init? = some ⟨2, 12⟩) ∧
      (ofCalls "ams" withBlanks).build 0 =
        .error (.malformed "ams" (.blankHandlerMap .delimiter 2)) := by
  have hnone : ∀ check : Check, ∀ given ∈ check.given "ams" outdone, Text.trim given ≠ "" := by
    have hall : ∀ check ∈ Check.all, ∀ given ∈ check.given "ams" outdone, Text.trim given ≠ "" := by
      decide +kernel
    exact fun check => hall check check.mem_all
  obtain ⟨hsucceeds, -, hdescribed⟩ := built_as_described "ams" outdone 0
  obtain ⟨package, hbuild⟩ := hsucceeds.2 hnone
  have hpackage := hdescribed package hbuild
  obtain ⟨-, hfails, -⟩ := built_as_described "ams" withBlanks 0
  refine ⟨hnone, ⟨package, hbuild, hpackage.handlers .delimiter, ?_, ?_⟩, (hfails _).2 ?_⟩
  · exact hpackage.rules .tags "ams"
  · rw [hpackage.init?, hpackage.priority]
    rfl
  · decide +kernel

end ParserPackages
