import CSource.Build.Scopes

/-!
Calls that put functions into a scope: free functions at top level, member functions in an aggregate. A split
function stands there by its first half and is defined elsewhere, once.
-/

namespace CSource.Build

/-- Puts a function into a scope: by its first half when it is split, else as it is. -/
def placeFunction (scope : ScopeRef) (lifecycle : Lifecycle) (f : FunctionRef) : Build FunctionRef := do
  if lifecycle = .split then
    let half ← alloc .decl (.splitForward f.handle)
    discard <| pushDecl scope half
  else
    discard <| pushDecl scope f.handle
  pure f

def defFunction (scope : ScopeRef) (lifecycle : Lifecycle) (name : QualName) (ret : TypeRef)
    (params : List DeclRef) (variadic : Bool) : Build FunctionRef := do
  let f ← newFunction name (some ret) params variadic lifecycle .free none
  placeFunction scope lifecycle f

def defineFunction (scope : ScopeRef) (f : FunctionRef) : Build FunctionRef := do
  own f.handle
  markDefined f
  discard <| pushDecl scope f.handle
  pure f

def defFunctionTemplate (scope : ScopeRef) (name : QualName) (templateParams : List DeclRef) (ret : TypeRef)
    (params : List DeclRef) (variadic : Bool) : Build (DeclRef × FunctionRef) := do
  let f ← functionDecl name ret params variadic
  let template ← templateDecl templateParams f.handle
  discard <| pushDecl scope template
  pure (template, f)

def parentOf (scope : ScopeRef) : Build TypeRef := do
  match (← read (·.node scope)).kind with
  | .members parent _ => pure parent
  | other => throw (.unexpected .memberScope other.kindName)

def classNameOf (scope : ScopeRef) : Build String := do
  let parent ← parentOf scope
  pure (← read (·.tagName parent)).last

def newMember (scope : ScopeRef) (name : String) (ret : Option TypeRef) (params : List DeclRef)
    (variadic : Bool) (lifecycle : Lifecycle) (kind : FuncKind) : Build FunctionRef := do
  require .memberFunction
  let parent ← parentOf scope
  newFunction (.ofString name) ret params variadic lifecycle kind (some parent)

def defMethod (scope : ScopeRef) (lifecycle : Lifecycle) (name : String) (ret : TypeRef)
    (params : List DeclRef) (variadic : Bool) : Build FunctionRef := do
  let f ← newMember scope name (some ret) params variadic lifecycle .method
  placeFunction scope lifecycle f

def defMethodTemplate (scope : ScopeRef) (name : String) (templateParams : List DeclRef) (ret : TypeRef)
    (params : List DeclRef) (variadic : Bool) : Build (DeclRef × FunctionRef) := do
  let f ← newMember scope name (some ret) params variadic .inPlace .method
  let template ← templateDecl templateParams f.handle
  discard <| pushDecl scope template
  pure (template, f)

def defConstructor (scope : ScopeRef) (lifecycle : Lifecycle) (params : List DeclRef) :
    Build FunctionRef := do
  let name ← classNameOf scope
  let f ← newMember scope name none params false lifecycle .constructor
  placeFunction scope lifecycle f

def defDestructor (scope : ScopeRef) (lifecycle : Lifecycle) : Build FunctionRef := do
  let name ← classNameOf scope
  let f ← newMember scope ("~" ++ name) none [] false lifecycle .destructor
  placeFunction scope lifecycle f

end CSource.Build
