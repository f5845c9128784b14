/-!
The two dialects, and the constructs that only one of them has.
-/

namespace CSource

inductive Dialect where
  | c
  | cxx
  deriving DecidableEq, Repr

namespace Dialect

def name : Dialect → String
  | c => "C"
  | cxx => "C++"

def isCxx : Dialect → Bool
  | c => false
  | cxx => true

end Dialect

inductive Feature where
  | autoType
  | referenceType
  | templateInstantiation
  | template
  | parameterPack
  | templateTypeParameter
  | classAggregate
  | scopedEnum
  | accessSpecifier
  | baseClass
  | finalClass
  | constructorInitialization
  | inlineVariable
  | constexprFunction
  | qualifiedName
  | lambda
  | newExpression
  | deleteExpression
  | userLiteral
  | packExpansion
  | foldExpression
  | aliasDeclaration
  | aliasTemplate
  | classTemplate
  | ifInitializer
  | ifConstexpr
  | rangeFor
  | switchInitializer
  | throwStatement
  | tryBlock
  | usingDirective
  | usingDeclaration
  | namespaceBlock
  | memberFunction
  | genericSelection
  | restrictQualifier
  deriving DecidableEq, Repr

namespace Feature

def label : Feature → String
  | autoType => "auto type"
  | referenceType => "reference type"
  | templateInstantiation => "template instantiation"
  | template => "template"
  | parameterPack => "parameter pack"
  | templateTypeParameter => "template type parameter"
  | classAggregate => "class"
  | scopedEnum => "scoped enum"
  | accessSpecifier => "access specifier"
  | baseClass => "base class"
  | finalClass => "final class"
  | constructorInitialization => "constructor-style initialization"
  | inlineVariable => "inline variable"
  | constexprFunction => "constexpr function"
  | qualifiedName => "qualified name"
  | lambda => "lambda"
  | newExpression => "new expression"
  | deleteExpression => "delete expression"
  | userLiteral => "user-defined literal"
  | packExpansion => "pack expansion"
  | foldExpression => "fold expression"
  | aliasDeclaration => "alias declaration"
  | aliasTemplate => "alias template"
  | classTemplate => "class template"
  | ifInitializer => "if with initializer"
  | ifConstexpr => "if constexpr"
  | rangeFor => "range-based for"
  | switchInitializer => "switch with initializer"
  | throwStatement => "throw"
  | tryBlock => "try block"
  | usingDirective => "using directive"
  | usingDeclaration => "using declaration"
  | namespaceBlock => "namespace"
  | memberFunction => "member function"
  | genericSelection => "_Generic selection"
  | restrictQualifier => "restrict qualifier"

def dialect : Feature → Dialect
  | genericSelection | restrictQualifier => .c
  | _ => .cxx

end Feature

end CSource
