/-
This file gives the ways in which the program stops and the texts that it prints then.
-/

import UConfig.Program.Version

namespace UConfig

/-- Each failure holds what its message mentions. -/
inductive Failure where
  | unexpectedOperator (tok : S8) (realname : Option S8)
  | expectedVersion (op : VersOp) (realname : Option S8)
  | couldNotRead (realname path : S8)
  | maxRecursionIn (path : S8)
  | undefinedVariable (name path : S8)
  | couldNotFind (realname : S8)
  | duplicateVariable (name path : S8)
  | duplicateField (name path : S8)
  | missingField (name path : S8)
  | maxRecursionOn (tok : S8)
  | versionMismatch (realname : S8) (op : VersOp) (want got : S8)
  | unmatchedQuote (realname : S8)

/-- A package is only mentioned when there is one. -/
def inPackage : Option S8 → S8
  | none => []
  | some realname => S " in package '" ++ realname ++ S "'"

def Failure.message (failure : Failure) : S8 :=
  S "pkg-config: " ++ (match failure with
    | unexpectedOperator tok realname =>
        S "unexpected operator '" ++ tok ++ S "'" ++ inPackage realname
    | expectedVersion op realname =>
        S "expected version following operator " ++ (opName op).getD [] ++ inPackage realname
    | couldNotRead realname path =>
        S "could not read package '" ++ realname ++ S "' from '" ++ path ++ S "'"
    | maxRecursionIn path => S "exceeded max recursion depth in '" ++ path ++ S "'"
    | undefinedVariable name path =>
        S "undefined variable '" ++ name ++ S "' in '" ++ path ++ S "'"
    | couldNotFind realname => S "could not find package '" ++ realname ++ S "'"
    | duplicateVariable name path =>
        S "duplicate variable '" ++ name ++ S "' in '" ++ path ++ S "'"
    | duplicateField name path =>
        S "duplicate field '" ++ name ++ S "' in '" ++ path ++ S "'"
    | missingField name path => S "missing field '" ++ name ++ S "' in '" ++ path ++ S "'"
    | maxRecursionOn tok => S "exceeded max recursion depth on '" ++ tok ++ S "'"
    | versionMismatch realname op want got =>
        S "requested '" ++ realname ++ S "' " ++ (opName op).getD [] ++ S " '" ++ want ++
          S "' but got '" ++ got ++ S "'"
    | unmatchedQuote realname => S "unmatched quote in '" ++ realname ++ S "'") ++ S "\n"

/-- A fault is an access outside of an array or an assertion that does not hold. -/
inductive Stop where
  | fail (failure : Failure)
  | fault
  | outOfMemory

end UConfig
