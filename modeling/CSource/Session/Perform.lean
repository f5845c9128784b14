import CSource.Session.Call

/-!
What each call does. A call that fills a scope does not ask first whether the scope is one of the arena's own; that is
found out when the entry is put there, which is the last thing it does.
-/

namespace CSource

open Build

def silently (act : Build Unit) : Build Answer := do
  act
  pure .nothing

def TypeCall.perform : TypeCall → Build Answer
  | primitive p => .type <$> primitiveType p
  | auto => .type <$> autoType
  | parameter keyword => .type <$> typeParameter keyword
  | raw spelling => .type <$> rawType spelling
  | pointer ty => .type <$> pointerType ty
  | reference ty => .type <$> referenceType ty
  | array ty sizes => .type <$> arrayType ty sizes
  | function ret params variadic => .type <$> functionType ret params variadic
  | named d => .type <$> namedType d
  | instantiation template args => .type <$> instantiationType template args
  | rawInstantiation name args => .type <$> rawInstantiationType name args
  | pack ty => .type <$> packType ty
  | newAggregate kind name => .aggregate <$> Build.newAggregate kind name
  | newEnum name key => .enumeration <$> Build.newEnum name key
  | namedClass c => .type <$> namedType c.decl
  | members c => .place <$> Build.members c
  | addRegion c access => .place <$> Build.addRegion c access
  | addBase c access base => silently <| Build.addBase c access base
  | setFinal c isFinal => silently <| Build.setFinal c isFinal
  | forwardClass c => .decl <$> forwardAggregate c
  | namedEnum e => .type <$> namedType e.decl
  | addEnumMember e name value => silently <| Build.addEnumMember e name value
  | setUnderlying e ty => silently <| Build.setUnderlying e ty
  | setEnumKey e key => silently <| Build.setEnumKey e key
  | forwardEnum e => .decl <$> Build.forwardEnum e

def DeclCall.perform : DeclCall → Build Answer
  | raw text => .decl <$> rawDecl text
  | var name ty init => .decl <$> varDecl name ty init
  | arrayVar name ty sizes init => .decl <$> arrayVarDecl name ty sizes init
  | constructedVar name ty args braced => .decl <$> constructedVarDecl name ty args braced
  | function name ret params variadic => .typed <$> functionDecl name ret params variadic
  | template params inner => .decl <$> templateDecl params inner
  | rawTemplate name => .decl <$> rawTemplateDecl name
  | setVarQualifiers d quals => silently <| Build.setVarQualifiers d quals
  | body f => .place <$> functionBody f
  | setQualifiers f quals => silently <| setFunctionQualifiers f quals
  | setMethodQualifiers f quals => silently <| Build.setMethodQualifiers f quals
  | addMemberInit f member args => silently <| Build.addMemberInit f member args

def ExprCall.perform : ExprCall → Build Answer
  | raw text => .expr <$> rawExpr text
  | literal l => .expr <$> literalExpr l
  | var d => .expr <$> varExpr d
  | typeName ty => .expr <$> typeExpr ty
  | subscript base index => .expr <$> subscriptExpr base index
  | call callee args => .expr <$> callExpr callee args
  | unary op x => .expr <$> unaryExpr op x
  | postfixed x op => .expr <$> postfixExpr x op
  | binary lhs op rhs => .expr <$> binaryExpr lhs op rhs
  | ternary cond yes no => .expr <$> ternaryExpr cond yes no
  | cast ty x => .expr <$> castExpr ty x
  | paren inner => .expr <$> parenExpr inner
  | initList items => .expr <$> initListExpr items
  | designated fields => .expr <$> designatedExpr fields
  | generic control => .typed <$> genericExpr control
  | addAssociation g ty value => silently <| Build.addAssociation g ty value
  | qualName name => .expr <$> qualNameExpr name
  | lambda captures params variadic ret => .typed <$> lambdaExpr captures params variadic ret
  | new data => .expr <$> newExpr data
  | delete x array => .expr <$> deleteExpr x array
  | userLiteral x suffix => .expr <$> userLiteralExpr x suffix
  | instantiation template args => .expr <$> instantiationExpr template args
  | rawInstantiation name args => .expr <$> rawInstantiationExpr name args
  | packExpansion pack => .expr <$> packExpansionExpr pack
  | fold op pack kind => .expr <$> foldExpr op pack kind
  | operator op x => .expr <$> unaryExpr op.spelling x
  | compare lhs op rhs => .expr <$> binaryExpr lhs op.spelling rhs
  | select lhs selection member => .expr <$> selectExpr lhs selection member
  | sizeof ty => .expr <$> sizeofExpr ty
  | vaArg list ty => .expr <$> vaArgExpr list ty
  | short x => .expr <$> operand x
  | shortUnary op x => .expr <$> Build.shortUnary op x
  | shortPostfix x op => .expr <$> Build.shortPostfix x op
  | shortBinary lhs op rhs => .expr <$> Build.shortBinary lhs op rhs
  | shortCall callee args => .expr <$> Build.shortCall callee args
  | shortIndex base indices => .expr <$> Build.shortIndex base indices

def GrowCall.perform : GrowCall → Build Answer
  | addElseIf s init cond => .place <$> Build.addElseIf s init cond
  | elseBranch s => .place <$> Build.elseBranch s
  | addCase s value fallthrough => .typed <$> Build.addCase s value fallthrough
  | addHandler s d => .place <$> Build.addHandler s d
  | addElif _ c cond => .place <$> Build.addElif c cond
  | elseOfConditional _ c => .place <$> Build.elseOfConditional c

def AnyCall.perform (scope : ScopeRef) : AnyCall → Build Answer
  | entry e => silently <| pushEntry scope e
  | decl d => .decl <$> pushDecl scope d
  | declStmt d => .decl <$> pushDeclStmt scope d
  | stmt s => .stmt <$> pushStmt scope s
  | directive d => .directive <$> pushDirective scope d
  | raw text => .decl <$> defRaw scope text
  | var name ty init => .decl <$> defVar scope name ty init
  | arrayVar name ty sizes init => .decl <$> defArrayVar scope name ty sizes init
  | constructedVar name ty args braced => .decl <$> defConstructedVar scope name ty args braced
  | typeDef name ty => .type <$> defTypedef scope name ty
  | usingType name ty => .type <$> defUsing scope name ty
  | varTemplate name templateParams ty init =>
    (fun (template, d) => .templated template (.node .decl d)) <$> defVarTemplate scope name templateParams ty init
  | usingTemplate name templateParams ty =>
    (fun (template, t) => .templated template (.node .type t)) <$> defUsingTemplate scope name templateParams ty

def TagCall.perform (scope : ScopeRef) : TagCall → Build Answer
  | aggregate kind name => .aggregate <$> defAggregate scope kind name
  | enumeration name key => .enumeration <$> defEnum scope name key
  | aggregateTemplate kind name templateParams =>
    (fun (template, c) => .templated template (.aggregate c)) <$>
      defAggregateTemplate scope kind name templateParams
  | declareAggregate c => .decl <$> Build.declareAggregate scope c
  | declareEnum e => .decl <$> Build.declareEnum scope e

def StmtCall.perform (scope : ScopeRef) : StmtCall → Build Answer
  | raw text => .stmt <$> placeStmt scope (.raw text)
  | empty => .stmt <$> placeStmt scope .empty
  | decl d => .stmt <$> placeDecl scope d
  | expr e => .stmt <$> placeExpr scope e
  | ifElse init cond isConstexpr => .typed <$> placeIf scope init cond isConstexpr
  | whileLoop cond => .typed <$> placeWhile scope cond
  | forLoop cond step => .typed <$> placeFor scope none cond step
  | forDecl init cond step => .typed <$> placeForDecl scope init cond step
  | forExpr init cond step => .typed <$> placeForExpr scope init cond step
  | forRange d range => .typed <$> placeForRange scope d range
  | doWhile cond => .typed <$> placeDoWhile scope cond
  | block => .place <$> placeBlock scope
  | returnValue value => .stmt <$> placeReturn scope value
  | breakLoop => .stmt <$> placeStmt scope .breakLoop
  | continueLoop => .stmt <$> placeStmt scope .continueLoop
  | label name => .stmt <$> placeStmt scope (.label name none)
  | labeledExpr name e => .stmt <$> placeLabeledExpr scope name e
  | goto target => .stmt <$> placeStmt scope (.goto target)
  | switch init cond => .typed <$> placeSwitch scope init cond
  | throwValue value => .stmt <$> placeThrow scope value
  | tryCatch => .typed <$> placeTry scope
  | usingNamespace name => .stmt <$> placeUsingNamespace scope name
  | assign lhs rhs => .stmt <$> placeAssign scope lhs rhs
  | call callee args => .stmt <$> placeCall scope callee args
  | delete x array => .stmt <$> placeDelete scope x array
  | vaList name => .decl <$> placeVaList scope name
  | vaStart list last => .stmt <$> placeVaStart scope list last
  | vaCopy dest src => .stmt <$> placeVaCopy scope dest src
  | vaEnd list => .stmt <$> placeVaEnd scope list

def DirectiveCall.perform (scope : ScopeRef) (branch : BranchKind) : DirectiveCall → Build Answer
  | raw text => .directive <$> placeDirective scope (.raw text)
  | includeFile path system => .directive <$> placeDirective scope (.includeFile path system)
  | define name value => .directive <$> placeDirective scope (.define name value)
  | defineFunction name params => .typed <$> placeMacroFunction scope name params
  | undef name => .directive <$> placeDirective scope (.undef name)
  | pragma text => .directive <$> placeDirective scope (.pragma text)
  | conditional head => .typed <$> placeConditional scope branch head
  | newlines count => .directive <$> placeRepeated scope "\n" count
  | spaces count => .directive <$> placeRepeated scope " " count
  | tabs count => .directive <$> placeRepeated scope "\t" count
  | comment text => .directive <$> placeComment scope text
  | lineComment text => .directive <$> placeLineComment scope text

def TopLevelCall.perform (scope : ScopeRef) : TopLevelCall → Build Answer
  | function lifecycle name ret params variadic => .typed <$> defFunction scope lifecycle name ret params variadic
  | defineFunction f => .typed <$> Build.defineFunction scope f
  | functionTemplate name templateParams ret params variadic =>
    (fun (template, f) => .templated template (.typed .function f)) <$>
      defFunctionTemplate scope name templateParams ret params variadic
  | namespaceBlock name => .typed <$> placeNamespace scope name
  | usingNamespace name => .directive <$> placeUsingDirective scope name
  | usingName name => .directive <$> placeUsingName scope name

def MemberCall.perform (scope : ScopeRef) : MemberCall → Build Answer
  | method lifecycle name ret params variadic => .typed <$> defMethod scope lifecycle name ret params variadic
  | methodTemplate name templateParams ret params variadic =>
    (fun (template, f) => .templated template (.typed .function f)) <$>
      defMethodTemplate scope name templateParams ret params variadic
  | constructor lifecycle params => .typed <$> defConstructor scope lifecycle params
  | destructor lifecycle => .typed <$> defDestructor scope lifecycle

def Call.perform : Call → Build Answer
  | type call => call.perform
  | decl call => call.perform
  | expr call => call.perform
  | grow call => call.perform
  | newTopLevel => .place <$> Build.newTopLevel
  | looseScope use kind => (fun scope => .place ⟨use, scope⟩) <$> newScope kind
  | commentBefore r text => silently <| Build.commentBefore r text
  | commentAfter r text => silently <| Build.commentAfter r text
  | putAny p call => call.perform p.scope
  | putTag p _ call => call.perform p.scope
  | putStmt p _ call => call.perform p.scope
  | putDirective p branch _ call => call.perform p.scope branch
  | putTopLevel p _ call => call.perform p.scope
  | putMember p _ call => call.perform p.scope

end CSource
