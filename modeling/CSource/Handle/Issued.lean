import CSource.Handle.Place
import CSource.Handle.Typed

/-!
Issued handles: whatever a call hands out, as one type. An issued handle can be used wherever a handle of its
category is wanted; tags and templates are taken apart instead.
-/

namespace CSource

inductive Issued where
  | node (c : Category) (h : Handle c)
  | typed (r : Role) (h : Typed r)
  | place (p : Place)
  | aggregate (c : ClassRef)
  | enumeration (e : EnumRef)
  | templated (template : DeclRef) (inner : Issued)
  deriving DecidableEq, Repr

namespace Issued

/-- The node that a handle names, where it names one: typed handles and places stand for their node or scope. -/
def ref? : Issued → Option NodeRef
  | node _ h => some h.ref
  | typed _ h => some h.handle.ref
  | place p => some p.scope.ref
  | aggregate _ | enumeration _ | templated _ _ => none

def handle? (i : Issued) (c : Category) : Option (Handle c) :=
  match i.ref? with
  | some r => if r.category = c then some ⟨r.arena, r.index⟩ else none
  | none => none

def typed? (i : Issued) (r : Role) : Option (Typed r) :=
  match i with
  | typed role h => if role = r then some ⟨⟨h.handle.arena, h.handle.index⟩⟩ else none
  | _ => none

def place? : Issued → Option Place
  | place p => some p
  | _ => none

/-- What is rendered for a handle: a tag stands for its type. -/
def rendered? : Issued → Option NodeRef
  | aggregate c => some c.ty.ref
  | enumeration e => some e.ty.ref
  | i => i.ref?

end Issued

end CSource
