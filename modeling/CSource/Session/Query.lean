import CSource.Render.Text
import CSource.Session.Answer

/-!
The calls that only read an arena. Their answers leave the arena as it is by their type.
-/

namespace CSource

inductive Query where
  | void
  | stats
  | dialect
  | rawTypeNames
  | node (r : NodeRef)
  | code (r : NodeRef)
  | codeOfEntries (scope : ScopeRef)
  | codeOfArgs (args : List TemplateArg)
  | scopeKind (scope : ScopeRef)
  | scopeEntries (scope : ScopeRef)
  | openPlace (p : Place)
  | comments (r : NodeRef)
  | declName (d : DeclRef)
  | qualify (d : DeclRef) (segment : String)
  | className (c : ClassRef)
  | classKind (c : ClassRef)
  | enumName (e : EnumRef)
  | varQualifiers (d : DeclRef)
  | lifecycle (f : FunctionRef)
  | functionName (f : FunctionRef)
  | isForward (f : FunctionRef)
  | funcQualifiers (f : FunctionRef)
  | methodQualifiers (f : FunctionRef)
  | lambdaBody (l : Typed .lambda)
  | ifBody (s : Typed .ifElse)
  | caseBody (s : Typed .caseLabel)
  | loopBody (s : Typed .loop)
  | tryBody (s : Typed .tryCatch)
  | conditionalBody (branch : BranchKind) (c : Typed (.conditional branch))
  | macroScope (m : Typed .functionMacro)
  | namespaceBody (n : Typed .namespaceBlock)

namespace Arena

def bodyOfLambda (a : Arena) (l : Typed .lambda) : Except Misuse Place := do
  match ← a.node l.handle with
  | .lambda data => pure ⟨.function, data.body⟩
  | other => .error (.unexpected .lambda other.kindName)

def bodyOfIf (a : Arena) (s : Typed .ifElse) : Except Misuse Place := do
  match ← a.node s.handle with
  | .ifElse data => pure ⟨.function, data.body⟩
  | other => .error (.unexpected .ifStatement other.kindName)

def bodyOfCase (a : Arena) (s : Typed .caseLabel) : Except Misuse Place := do
  match ← a.node s.handle with
  | .caseLabel data => pure ⟨.function, data.body⟩
  | other => .error (.unexpected .caseLabel other.kindName)

def bodyOfLoop (a : Arena) (s : Typed .loop) : Except Misuse Place := do
  match ← a.node s.handle with
  | .whileLoop _ body | .forLoop _ _ _ body | .forRange _ _ body | .doWhile _ body => pure ⟨.function, body⟩
  | other => .error (.unexpected .loop other.kindName)

def bodyOfTry (a : Arena) (s : Typed .tryCatch) : Except Misuse Place := do
  match ← a.node s.handle with
  | .tryCatch data => pure ⟨.function, data.body⟩
  | other => .error (.unexpected .tryBlock other.kindName)

def bodyOfConditional (a : Arena) {b : BranchKind} (c : Typed (.conditional b)) : Except Misuse Place := do
  match ← a.node c.handle with
  | .conditional data => pure ⟨b.placeKind, data.body⟩
  | other => .error (.unexpected .conditional other.kindName)

def bodyOfMacro (a : Arena) (m : Typed .functionMacro) : Except Misuse Place := do
  match ← a.node m.handle with
  | .defineFunction _ _ body => pure ⟨.macroBody, body⟩
  | other => .error (.unexpected .functionMacro other.kindName)

def bodyOfNamespace (a : Arena) (n : Typed .namespaceBlock) : Except Misuse Place := do
  match ← a.node n.handle with
  | .namespaceBlock _ body => pure ⟨.topLevel, body⟩
  | other => .error (.unexpected .namespaceBlock other.kindName)

def openPlace (a : Arena) (p : Place) : Except Misuse Place :=
  if a.owns p.scope then .ok p else .error (.foreignHandle .scope)

def answer (a : Arena) : Query → Except Misuse Answer
  | .void => pure (.type a.void)
  | .stats => pure (.stats a.stats)
  | .dialect => pure (.dialect a.dialect)
  | .rawTypeNames => pure (.texts a.rawTypeNames)
  | .node r => .node r.category <$> a.node r.handle
  | .code r => .text <$> a.render r
  | .codeOfEntries scope => do
    let n ← a.node scope
    .texts <$> n.entries.mapM fun e => a.render e.ref
  | .codeOfArgs args => .texts <$> args.mapM fun arg => a.render arg.ref
  | .scopeKind scope => (fun n : ScopeNode => .scopeKind n.kind) <$> a.node scope
  | .scopeEntries scope => (fun n : ScopeNode => .entries n.entries) <$> a.node scope
  | .openPlace p => .place <$> a.openPlace p
  | .comments r => pure (.comments (a.commentsOf r))
  | .declName d => .name <$> a.declName d
  | .qualify d segment => (fun n => .text n.text) <$> a.qualify d segment
  | .className c => (fun d => .name d.name) <$> a.aggregateAt c.ty
  | .classKind c => (fun d => .aggregateKind d.kind) <$> a.aggregateAt c.ty
  | .enumName e => .name <$> a.tagName e.ty
  | .varQualifiers d => (fun v => .varQualifiers v.quals) <$> a.variableAt d
  | .lifecycle f => (fun d => .lifecycle d.lifecycle) <$> a.functionAt f.handle
  | .functionName f => (fun d => .name d.name) <$> a.functionAt f.handle
  | .isForward f => (fun d => .flag d.body.isNone) <$> a.functionAt f.handle
  | .funcQualifiers f => (fun d => .funcQualifiers d.quals) <$> a.functionAt f.handle
  | .methodQualifiers f => (fun d => .methodQualifiers (d.method.map (·.quals))) <$> a.functionAt f.handle
  | .lambdaBody l => .place <$> a.bodyOfLambda l
  | .ifBody s => .place <$> a.bodyOfIf s
  | .caseBody s => .place <$> a.bodyOfCase s
  | .loopBody s => .place <$> a.bodyOfLoop s
  | .tryBody s => .place <$> a.bodyOfTry s
  | .conditionalBody _ c => .place <$> a.bodyOfConditional c
  | .macroScope m => .place <$> a.bodyOfMacro m
  | .namespaceBody n => .place <$> a.bodyOfNamespace n

end Arena

end CSource
