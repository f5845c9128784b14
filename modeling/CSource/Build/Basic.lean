import CSource.Arena.Naming

/-!
The monad of calls. A call leaves an arena whether it succeeds or is refused, and a refused call keeps what it had
stored before the refusal.
-/

namespace CSource

abbrev Build := EStateM Misuse Arena

namespace Build

def read {α : Type} (f : Arena → Except Misuse α) : Build α := do
  MonadExcept.ofExcept (f (← get))

theorem runRead {α : Type} (f : Arena → Except Misuse α) (a : Arena) :
    (read f).run a = match f a with
      | .ok x => .ok x a
      | .error m => .error m a := by
  cases found : f a <;>
    simp only [read, found, MonadExcept.ofExcept, EStateM.run_bind, EStateM.run_get] <;> rfl

def own {c : Category} (h : Handle c) : Build Unit := do
  unless (← get).owns h do throw (.foreignHandle c)

theorem runOwns {c : Category} (h : Handle c) (a : Arena) :
    (own h).run a = if a.owns h then .ok () a else .error (.foreignHandle c) a := by
  cases owned : a.owns h <;> simp [own, owned]

def ownEach {c : Category} (hs : List (Handle c)) : Build Unit := hs.forM own

theorem runOwnEachIff {c : Category} (hs : List (Handle c)) (a : Arena) :
    (ownEach hs).run a = .ok () a ↔ ∀ h ∈ hs, a.owns h = true := by
  induction hs with
  | nil => simp [ownEach]
  | cons h hs ih =>
    have first := runOwns h a
    cases owned : a.owns h <;> simp_all [ownEach, List.forM_cons]

def ownOption {c : Category} : Option (Handle c) → Build Unit
  | some h => own h
  | none => pure ()

def ownArg : TemplateArg → Build Unit
  | .type ty => own ty
  | .expr e => own e

def ownArgs (args : List TemplateArg) : Build Unit := args.forM ownArg

def require (f : Feature) : Build Unit := do
  unless (← get).dialect = f.dialect do throw (.unavailable f)

theorem runRequire (f : Feature) (a : Arena) :
    (require f).run a = if a.dialect = f.dialect then .ok () a else .error (.unavailable f) a := by
  by_cases same : a.dialect = f.dialect <;> simp [require, same]

def requireIf (condition : Bool) (f : Feature) : Build Unit := do
  if condition then require f

def alloc (c : Category) (n : Node c) : Build (Handle c) := do
  let a ← get
  set (a.push c n)
  pure (a.nextHandle c)

theorem runAlloc (c : Category) (n : Node c) (a : Arena) :
    (alloc c n).run a = .ok (a.nextHandle c) (a.push c n) := rfl

def update {c : Category} (h : Handle c) (n : Node c) : Build Unit :=
  modify (·.replace h n)

theorem runUpdate {c : Category} (h : Handle c) (n : Node c) (a : Arena) :
    (update h n).run a = .ok () (a.replace h n) := rfl

def newScope (kind : ScopeKind) : Build ScopeRef := alloc .scope ⟨kind, []⟩

def newBody : Build ScopeRef := newScope .function

def commentBefore (r : NodeRef) (text : String) : Build Unit := do
  own r.handle
  modify (·.setComments r fun c => { c with before := some text })

def commentAfter (r : NodeRef) (text : String) : Build Unit := do
  own r.handle
  modify (·.setComments r fun c => { c with after := some text })

end Build

end CSource
