import CSource.Build.Directives
import CSource.Build.Functions
import CSource.Build.Short
import CSource.Build.Stmts
import CSource.Session.Answer

/-!
The calls that change an arena, as values. They are grouped by what they make; a call that fills a scope carries
the place, and the proof that the place takes what the call puts there.
-/

namespace CSource

inductive TypeCall where
  | primitive (p : PrimitiveType)
  | auto
  | parameter (keyword : ParameterKeyword)
  | raw (spelling : String)
  | pointer (ty : TypeRef)
  | reference (ty : TypeRef)
  | array (ty : TypeRef) (sizes : List ExprRef)
  | function (ret : TypeRef) (params : List TypeRef) (variadic : Bool)
  | named (decl : DeclRef)
  | instantiation (template : DeclRef) (args : List TemplateArg)
  | rawInstantiation (name : QualName) (args : List TemplateArg)
  | pack (ty : TypeRef)
  | newAggregate (kind : AggregateKind) (name : QualName)
  | newEnum (name : QualName) (key : Option EnumKey)
  | namedClass (c : ClassRef)
  | members (c : ClassRef)
  | addRegion (c : ClassRef) (access : Access)
  | addBase (c : ClassRef) (access : Access) (base : TypeRef)
  | setFinal (c : ClassRef) (isFinal : Bool)
  | forwardClass (c : ClassRef)
  | namedEnum (e : EnumRef)
  | addEnumMember (e : EnumRef) (name : String) (value : Option ExprRef)
  | setUnderlying (e : EnumRef) (ty : TypeRef)
  | setEnumKey (e : EnumRef) (key : EnumKey)
  | forwardEnum (e : EnumRef)

inductive DeclCall where
  | raw (text : String)
  | var (name : QualName) (ty : TypeRef) (init : Option ExprRef)
  | arrayVar (name : QualName) (ty : TypeRef) (sizes : List ExprRef) (init : Option ExprRef)
  | constructedVar (name : QualName) (ty : TypeRef) (args : List ExprRef) (braced : Bool)
  | function (name : QualName) (ret : TypeRef) (params : List DeclRef) (variadic : Bool)
  | template (params : List DeclRef) (inner : DeclRef)
  | rawTemplate (name : QualName)
  | setVarQualifiers (d : DeclRef) (quals : VarQualifiers)
  | body (f : FunctionRef)
  | setQualifiers (f : FunctionRef) (quals : FuncQualifiers)
  | setMethodQualifiers (f : FunctionRef) (quals : MethodQualifiers)
  | addMemberInit (f : FunctionRef) (member : QualName) (args : List ExprRef)

inductive ExprCall where
  | raw (text : String)
  | literal (l : Literal)
  | var (decl : DeclRef)
  | typeName (ty : TypeRef)
  | subscript (base index : ExprRef)
  | call (callee : ExprRef) (args : List ExprRef)
  | unary (op : String) (operand : ExprRef)
  | postfixed (operand : ExprRef) (op : String)
  | binary (lhs : ExprRef) (op : String) (rhs : ExprRef)
  | ternary (cond yes no : ExprRef)
  | cast (ty : TypeRef) (operand : ExprRef)
  | paren (inner : ExprRef)
  | initList (items : List ExprRef)
  | designated (fields : List Designator)
  | generic (control : ExprRef)
  | addAssociation (g : Typed .generic) (ty : Option TypeRef) (value : ExprRef)
  | qualName (name : QualName)
  | lambda (captures : List Capture) (params : List DeclRef) (variadic : Bool) (ret : Option TypeRef)
  | new (data : NewExpr)
  | delete (operand : ExprRef) (array : Bool)
  | userLiteral (operand : ExprRef) (suffix : String)
  | instantiation (template : DeclRef) (args : List TemplateArg)
  | rawInstantiation (name : QualName) (args : List TemplateArg)
  | packExpansion (pack : ExprRef)
  | fold (op : String) (pack : ExprRef) (kind : Fold)
  | operator (op : UnaryOperator) (operand : ExprRef)
  | compare (lhs : ExprRef) (op : Comparison) (rhs : ExprRef)
  | select (lhs : ExprRef) (selection : Selection) (member : String)
  | sizeof (ty : TypeRef)
  | vaArg (list : ExprRef) (ty : TypeRef)
  | short (x : Operand)
  | shortUnary (op : String) (x : Operand)
  | shortPostfix (x : Operand) (op : String)
  | shortBinary (lhs : Operand) (op : String) (rhs : Operand)
  | shortCall (callee : Operand) (args : List Operand)
  | shortIndex (base : Operand) (indices : List Operand)

inductive GrowCall where
  | addElseIf (s : Typed .ifElse) (init : Option DeclRef) (cond : ExprRef)
  | elseBranch (s : Typed .ifElse)
  | addCase (s : Typed .switch) (value : Option ExprRef) (fallthrough : Bool)
  | addHandler (s : Typed .tryCatch) (decl : Option DeclRef)
  | addElif (branch : BranchKind) (c : Typed (.conditional branch)) (cond : ExprRef)
  | elseOfConditional (branch : BranchKind) (c : Typed (.conditional branch))

inductive AnyCall where
  | entry (e : Entry)
  | decl (d : DeclRef)
  | declStmt (d : DeclRef)
  | stmt (s : StmtRef)
  | directive (d : DirectiveRef)
  | raw (text : String)
  | var (name : QualName) (ty : TypeRef) (init : Option ExprRef)
  | arrayVar (name : QualName) (ty : TypeRef) (sizes : List ExprRef) (init : Option ExprRef)
  | constructedVar (name : QualName) (ty : TypeRef) (args : List ExprRef) (braced : Bool)
  | typeDef (name : QualName) (ty : TypeRef)
  | usingType (name : QualName) (ty : TypeRef)
  | varTemplate (name : QualName) (templateParams : List DeclRef) (ty : TypeRef) (init : Option ExprRef)
  | usingTemplate (name : QualName) (templateParams : List DeclRef) (ty : TypeRef)

/-- What can be put where types are declared. -/
inductive TagCall where
  | aggregate (kind : AggregateKind) (name : QualName)
  | enumeration (name : QualName) (key : Option EnumKey)
  | aggregateTemplate (kind : AggregateKind) (name : QualName) (templateParams : List DeclRef)
  | declareAggregate (c : ClassRef)
  | declareEnum (e : EnumRef)

inductive StmtCall where
  | raw (text : String)
  | empty
  | decl (d : DeclRef)
  | expr (e : ExprRef)
  | ifElse (init : Option DeclRef) (cond : ExprRef) (isConstexpr : Bool)
  | whileLoop (cond : ExprRef)
  | forLoop (cond step : Option ExprRef)
  | forDecl (init : DeclRef) (cond step : Option ExprRef)
  | forExpr (init : ExprRef) (cond step : Option ExprRef)
  | forRange (decl : DeclRef) (range : ExprRef)
  | doWhile (cond : ExprRef)
  | block
  | returnValue (value : Option ExprRef)
  | breakLoop
  | continueLoop
  | label (name : String)
  | labeledExpr (name : String) (e : ExprRef)
  | goto (label : String)
  | switch (init : Option DeclRef) (cond : ExprRef)
  | throwValue (value : Option ExprRef)
  | tryCatch
  | usingNamespace (name : QualName)
  | assign (lhs rhs : ExprRef)
  | call (callee : ExprRef) (args : List ExprRef)
  | delete (operand : ExprRef) (array : Bool)
  | vaList (name : QualName)
  | vaStart (list last : ExprRef)
  | vaCopy (dest src : ExprRef)
  | vaEnd (list : ExprRef)

inductive DirectiveCall where
  | raw (text : String)
  | includeFile (path : String) (system : Bool)
  | define (name : String) (value : Option String)
  | defineFunction (name : String) (params : List String)
  | undef (name : String)
  | pragma (text : String)
  | conditional (head : Condition)
  | newlines (count : Nat)
  | spaces (count : Nat)
  | tabs (count : Nat)
  | comment (text : String)
  | lineComment (text : String)

inductive TopLevelCall where
  | function (lifecycle : Lifecycle) (name : QualName) (ret : TypeRef) (params : List DeclRef) (variadic : Bool)
  | defineFunction (f : FunctionRef)
  | functionTemplate (name : QualName) (templateParams : List DeclRef) (ret : TypeRef) (params : List DeclRef)
      (variadic : Bool)
  | namespaceBlock (name : QualName)
  | usingNamespace (name : QualName)
  | usingName (name : QualName)

inductive MemberCall where
  | method (lifecycle : Lifecycle) (name : String) (ret : TypeRef) (params : List DeclRef) (variadic : Bool)
  | methodTemplate (name : String) (templateParams : List DeclRef) (ret : TypeRef) (params : List DeclRef)
      (variadic : Bool)
  | constructor (lifecycle : Lifecycle) (params : List DeclRef)
  | destructor (lifecycle : Lifecycle)

inductive Call where
  | type (call : TypeCall)
  | decl (call : DeclCall)
  | expr (call : ExprCall)
  | grow (call : GrowCall)
  | newTopLevel
  /-- A scope that no node owns, used as a place of the given kind. -/
  | looseScope (use : PlaceKind) (kind : ScopeKind)
  | commentBefore (r : NodeRef) (text : String)
  | commentAfter (r : NodeRef) (text : String)
  | putAny (p : Place) (call : AnyCall)
  | putTag (p : Place) (taken : p.kind.takesTypes = true) (call : TagCall)
  | putStmt (p : Place) (taken : p.kind.takesStatements = true) (call : StmtCall)
  | putDirective (p : Place) (branch : BranchKind) (taken : p.kind.branch? = some branch) (call : DirectiveCall)
  | putTopLevel (p : Place) (taken : p.kind = .topLevel) (call : TopLevelCall)
  | putMember (p : Place) (taken : p.kind = .member) (call : MemberCall)

end CSource
