import CSource.Dialect
import CSource.Handle
import CSource.Node.Decl
import CSource.QualName

/-!
Why a call is refused. Each cause is a value; `Misuse.message` is the only place that words it.
-/

namespace CSource

inductive Wanted where
  | namedType
  | aggregateType
  | enumType
  | tagType
  | synonymType
  | variable
  | function
  | lambda
  | genericSelection
  | ifStatement
  | switchStatement
  | caseLabel
  | loop
  | tryBlock
  | conditional
  | functionMacro
  | namespaceBlock
  | memberScope
  deriving DecidableEq, Repr

def Wanted.phrase : Wanted → String
  | namedType => "a named type"
  | aggregateType => "an aggregate type"
  | enumType => "an enum type"
  | tagType => "an aggregate or enum type"
  | synonymType => "an alias type"
  | .variable => "a variable declaration"
  | function => "a function declaration"
  | lambda => "a lambda"
  | genericSelection => "a _Generic selection"
  | ifStatement => "an if statement"
  | switchStatement => "a switch statement"
  | caseLabel => "a case label"
  | loop => "a loop"
  | tryBlock => "a try block"
  | conditional => "a conditional directive"
  | functionMacro => "a function-like macro"
  | namespaceBlock => "a namespace"
  | memberScope => "a member scope"

inductive Misuse where
  | foreignHandle (c : Category)
  | emptyHandle (c : Category)
  | unavailable (f : Feature)
  | unexpected (wanted : Wanted) (found : String)
  | pureForward (name : QualName)
  | bodyless (name : QualName) (special : MethodSpecial)
  | hasBody (name : QualName) (special : MethodSpecial)
  | notMember (name : QualName)
  | notSplit (name : QualName)
  | alreadyDefined (name : QualName)
  | notConstructor (name : QualName)
  | endless
  | oversized
  deriving DecidableEq, Repr

namespace Misuse

def quoted (name : QualName) : String := "`" ++ name.text ++ "`"

def message : Misuse → String
  | foreignHandle c => c.label ++ " handle belongs to a different Context"
  | emptyHandle c => c.label ++ " handle has no node"
  | unavailable f => f.label ++ " is only available when generating " ++ f.dialect.name
  | unexpected wanted found => "expected " ++ wanted.phrase ++ ", found " ++ found
  | pureForward name => quoted name ++ " is a pure forward declaration and cannot have a body"
  | bodyless name special => quoted name ++ " is " ++ special.description ++ " and cannot have a body"
  | hasBody name special => quoted name ++ " already has a body and cannot be " ++ special.description
  | notMember name => quoted name ++ " is not a member function"
  | notSplit name => quoted name ++ " was not declared as a split function"
  | alreadyDefined name => quoted name ++ " is already defined"
  | notConstructor name => quoted name ++ " is not a constructor"
  | endless => "the node is part of itself"
  | oversized => "capacity overflow"

end Misuse

end CSource
