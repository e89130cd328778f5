import ParserPackages.Category
import ParserPackages.Text.Quoted

/-! # Faults

Everything that can go wrong, by cause, with the wording, the diagnostic code and the advice that
belong to each cause. -/

namespace ParserPackages

/-- What a missing name should have identified. -/
inductive Named where
  | package
  | registry
  deriving DecidableEq, Repr

def Named.word : Named → String
  | package => "package"
  | registry => "registry"

inductive Defect where
  | blankParser
  | blankHandlerMap (category : Category) (position : Nat)
  | blankStackItem
  | blankTagScheme
  | blankNodeFactory
  | blankOption
  | described (reason : String)
  deriving DecidableEq, Repr

def Defect.message : Defect → String
  | blankParser => "parser target must not be empty"
  | blankHandlerMap category position =>
    category.name ++ " handler map #" ++ toString position ++ " has an empty name"
  | blankStackItem => "stack item with an empty name"
  | blankTagScheme => "tag scheme with an empty name"
  | blankNodeFactory => "node factory with an empty name"
  | blankOption => "option with an empty name"
  | described reason => reason

inductive Fault where
  | emptyName (what : Named)
  | malformed (package : String) (defect : Defect)
  | unknownPackage (name : String)
  | wrongParser (name target : String) (accepted : List String)
  | unknownOption (path : String)
  | unreadable (path : String)
  | undecodable (path : String)
  deriving DecidableEq, Repr

inductive FaultKind where
  | validation
  | selection
  | options
  | files
  deriving DecidableEq, Repr

namespace Fault

def message : Fault → String
  | emptyName what => "empty " ++ what.word ++ " name"
  | malformed package defect => "malformed package '" ++ package ++ "': " ++ defect.message
  | unknownPackage name => "unknown package '" ++ name ++ "'"
  | wrongParser name target accepted =>
    "package '" ++ name ++ "' targets parser '" ++ target ++ "', expected one of " ++
      Text.quoteList accepted
  | unknownOption path => "invalid option '" ++ path ++ "'"
  | unreadable path => "failed to read settings file '" ++ path ++ "'"
  | undecodable path => "invalid settings file '" ++ path ++ "'"

def kind : Fault → FaultKind
  | emptyName _ | malformed .. => .validation
  | unknownPackage _ | wrongParser .. => .selection
  | unknownOption _ => .options
  | unreadable _ | undecodable _ => .files

/-- The last part of the diagnostic code. -/
def codeSuffix : Fault → String
  | emptyName _ => "empty_name"
  | malformed .. => "malformed_entry"
  | unknownPackage _ => "unknown_package"
  | wrongParser .. => "wrong_parser"
  | unknownOption _ => "unknown_option"
  | unreadable _ => "io"
  | undecodable _ => "settings"

def code (fault : Fault) : String := "texpack::" ++ fault.codeSuffix

def help? : Fault → Option String
  | emptyName what => some ("give the " ++ what.word ++ " a non-empty name")
  | malformed .. => some "fix the package definition; it cannot be merged as written"
  | unknownPackage _ => some "register the package before requiring it dynamically"
  | wrongParser _ _ accepted => some ("select packages written for " ++ Text.join ", " accepted)
  | unknownOption _ =>
    some "only options declared by a selected package can be overridden"
  | unreadable _ => none
  | undecodable _ => some "settings files are YAML (.yaml, .yml) or JSON (.json)"

def requireName (name : String) (what : Named) : Except Fault Unit :=
  if Text.isBlank name then .error (.emptyName what) else .ok ()

end Fault
end ParserPackages
