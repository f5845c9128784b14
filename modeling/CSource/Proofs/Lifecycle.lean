import CSource.Proofs.Interning
import CSource.Proofs.Refusal
import CSource.Proofs.Signatures
import CSource.Proofs.Touched

/-!
The life of a function, from its declaration to its definition. A history lists the calls that led to a world with
their results; a function counts as defined exactly if the history has a call that defined it, or one that marked it and
was then refused for its scope. It has one such call at most. The last character of the text of a function says whether
it has a body.
-/

namespace CSource

open Build Render

section Runs

variable {α β : Type} {a b c : Arena}

theorem bindOk {m : Build α} {f : α → Build β} {y : β} (ran : (m >>= f).run a = .ok y c) :
    ∃ x b, m.run a = .ok x b ∧ (f x).run b = .ok y c := by
  rw [EStateM.run_bind] at ran
  cases first : m.run a with
  | ok x b =>
    rw [first] at ran
    exact ⟨x, b, rfl, ran⟩
  | error cause b =>
    rw [first] at ran
    contradiction

theorem Checks.ok {m : Build Unit} {P : Prop} (checks : Checks m a P) (ran : m.run a = .ok () b) : a = b ∧ P := by
  rcases checks with ⟨passed, holds⟩ | ⟨cause, refused⟩
  · cases passed.symm.trans ran
    exact ⟨rfl, holds⟩
  · cases refused.symm.trans ran

theorem readOk {g : Arena → Except Misuse α} {x : α} (ran : (read g).run a = .ok x b) : g a = .ok x ∧ a = b := by
  rw [runRead] at ran
  cases found : g a with
  | ok y =>
    rw [found] at ran
    cases ran
    exact ⟨rfl, rfl⟩
  | error cause =>
    rw [found] at ran
    contradiction

theorem pushEntryOk {scope : ScopeRef} {e : Entry} {x : Unit} (ran : (pushEntry scope e).run a = .ok x b) :
    ∃ n, a.node scope = .ok n ∧ b = a.replace scope { n with entries := n.entries ++ [e] } := by
  obtain ⟨_, _, passed, rest⟩ := bindOk ran
  obtain ⟨rfl, _⟩ := (ownEntryChecks _).ok passed
  obtain ⟨n, _, first, last⟩ := bindOk rest
  obtain ⟨found, rfl⟩ := readOk first
  cases last
  exact ⟨n, found, rfl⟩

end Runs

def Arena.Defined (a : Arena) (h : DeclRef) : Prop := ∃ f, a.node h = .ok (.function f) ∧ f.defined = true

section Function

variable {a b : Arena} {f : FunctionRef} {data : FuncDecl}

theorem runBody (here : a.node f.handle = .ok (.function data)) :
    (functionBody f).run a =
      if data.lifecycle = .forward then .error (.pureForward data.name) a
      else match data.special, data.body with
        | some mark, _ => .error (.bodyless data.name mark) a
        | none, some scope => .ok ⟨.function, scope⟩ a
        | none, none => .ok ⟨.function, a.nextHandle .scope⟩ ((a.push .scope ⟨.function, []⟩).replace f.handle
            (.function { data with body := some (a.nextHandle .scope) })) := by
  unfold functionBody
  rw [EStateM.run_bind, runRead, functionAtIff.mpr here]
  dsimp only
  by_cases forward : data.lifecycle = .forward
  · simp only [forward, if_true]
    rfl
  · simp only [forward, if_false]
    cases data.special with
    | some mark => rfl
    | none => cases data.body <;> rfl

theorem bodyRefused (here : a.node f.handle = .ok (.function data)) :
    (∃ cause b, (Call.decl (.body f)).perform.run a = .error cause b) ↔
      data.lifecycle = .forward ∨ data.special.isSome := by
  change (∃ cause b, (Answer.place <$> functionBody f).run a = .error cause b) ↔ _
  rw [map_eq_pure_bind, EStateM.run_bind, runBody here]
  by_cases forward : data.lifecycle = .forward
  · simp [forward]
  · cases data.special <;> cases data.body <;> simp [forward]

theorem bodyAnswered (here : a.node f.handle = .ok (.function data)) {answer : Answer}
    (ran : (Call.decl (.body f)).perform.run a = .ok answer b) :
    ∃ scope later, answer = .place ⟨.function, scope⟩ ∧ b.node f.handle = .ok (.function later) ∧
      later.body = some scope ∧ ∀ old, data.body = some old → scope = old := by
  obtain ⟨place, asked, rfl⟩ := Table.mappedOk ran
  rw [runBody here] at asked
  split at asked
  · contradiction
  split at asked <;> cases asked
  · rename_i scope _ filled
    exact ⟨scope, data, rfl, here, filled, fun old same => Option.some.inj (filled.symm.trans same)⟩
  · rename_i _ empty
    refine ⟨_, _, rfl, Arena.replacedNode (Arena.nodePushKeeps (c := .scope) _ here) _, rfl, fun old same => ?_⟩
    rw [empty] at same
    contradiction

def Unmarking (f : FunctionRef) (a b : Arena) : Prop :=
  ∃ old new, a.node f.handle = .ok (.function old) ∧ b.node f.handle = .ok (.function new) ∧ new.defined = old.defined

theorem Unmarking.defined (kept : Unmarking f a b) (defined : b.Defined f.handle) : a.Defined f.handle := by
  obtain ⟨old, new, before, after, same⟩ := kept
  obtain ⟨g, found, marked⟩ := defined
  cases Except.ok.inj (after.symm.trans found)
  exact ⟨old, before, same ▸ marked⟩

theorem bodyUnmarking {place : Place} (ran : (functionBody f).run a = .ok place b) : Unmarking f a b := by
  obtain ⟨data, _, first, _⟩ := bindOk ran
  have here := functionAtIff.mp (readOk first).1
  rw [runBody here] at ran
  split at ran
  · contradiction
  · split at ran <;> cases ran
    · exact ⟨data, data, here, here, rfl⟩
    · exact ⟨data, _, here, Arena.replacedNode (Arena.nodePushKeeps (c := .scope) _ here) _, rfl⟩

theorem qualifiersUnmarking {quals : FuncQualifiers} (ran : (setFunctionQualifiers f quals).run a = .ok () b) :
    Unmarking f a b := by
  obtain ⟨_, _, checked, grown⟩ := bindOk ran
  obtain ⟨rfl, _⟩ := (requireIfChecks ..).ok checked
  obtain ⟨data, _, first, updated⟩ := bindOk grown
  obtain ⟨found, rfl⟩ := readOk first
  have here := functionAtIff.mp found
  cases updated
  exact ⟨data, _, here, Arena.replacedNode here _, rfl⟩

theorem methodQualifiersUnmarking {quals : MethodQualifiers} (ran : (setMethodQualifiers f quals).run a = .ok () b) :
    Unmarking f a b := by
  obtain ⟨data, _, first, grown⟩ := bindOk ran
  obtain ⟨found, rfl⟩ := readOk first
  have here := functionAtIff.mp found
  dsimp only at grown
  cases member : data.method with
  | none =>
    rw [member] at grown
    split at grown
    · split at grown <;> contradiction
    · contradiction
  | some m =>
    rw [member] at grown
    split at grown
    · split at grown <;> try contradiction
      cases grown
      exact ⟨data, _, here, Arena.replacedNode here _, rfl⟩
    · cases grown
      exact ⟨data, _, here, Arena.replacedNode here _, rfl⟩

theorem memberInitUnmarking {member : QualName} {args : List ExprRef}
    (ran : (addMemberInit f member args).run a = .ok () b) : Unmarking f a b := by
  obtain ⟨_, _, checked, grown⟩ := bindOk ran
  obtain ⟨rfl, _⟩ := (ownEachChecks args).ok checked
  obtain ⟨data, _, first, updated⟩ := bindOk grown
  obtain ⟨found, rfl⟩ := readOk first
  have here := functionAtIff.mp found
  dsimp only at updated
  split at updated <;> try contradiction
  cases updated
  exact ⟨data, _, here, Arena.replacedNode here _, rfl⟩

theorem variableUnmarking {d : DeclRef} {quals : VarQualifiers} (ran : (setVarQualifiers d quals).run a = .ok () b) :
    ¬b.Defined d := by
  obtain ⟨_, _, first, rest⟩ := bindOk ran
  obtain ⟨rfl, _⟩ := (requireIfChecks ..).ok first
  obtain ⟨_, _, second, grown⟩ := bindOk rest
  obtain ⟨rfl, _⟩ := (requireIfChecks ..).ok second
  obtain ⟨data, _, read, updated⟩ := bindOk grown
  obtain ⟨found, rfl⟩ := readOk read
  cases updated
  rintro ⟨g, isFunction, _⟩
  cases (Arena.replacedNode (variableAtIff.mp found) _).symm.trans isFunction

theorem definedOk {scope : ScopeRef} {g : FunctionRef} (ran : (defineFunction scope f).run a = .ok g b) :
    ¬a.Defined f.handle ∧ b.Defined f.handle := by
  obtain ⟨_, _, checked, rest⟩ := bindOk ran
  obtain ⟨rfl, _⟩ := (ownChecks f.handle).ok checked
  obtain ⟨_, c, marks, placed⟩ := bindOk rest
  obtain ⟨data, _, first, marked⟩ := bindOk marks
  obtain ⟨found, rfl⟩ := readOk first
  have here := functionAtIff.mp found
  dsimp only at marked
  -- it is refused if the function is not split, and if it is defined already
  split at marked <;> try contradiction
  split at marked <;> try contradiction
  rename_i fresh
  cases marked
  rw [Account.discardBind] at placed
  obtain ⟨_, _, pushed, given⟩ := bindOk placed
  cases given
  constructor
  · rintro ⟨old, before, defined⟩
    cases Except.ok.inj (here.symm.trans before)
    exact fresh defined
  · have frame := (pushDeclConfined (C := []) (List.mem_singleton_self scope.ref)).succeeded pushed
    refine ⟨_, frame.node ?_ (Arena.replacedNode here _), rfl⟩
    simp [Handle.ref]

end Function

def Call.defines (h : DeclRef) : Call → Bool
  | putTopLevel _ _ (.defineFunction f) => f.handle == h
  | _ => false

section Call

variable {p : Policy} {w : World} {n : Nat} {call : Call} {a b : Arena} {h : DeclRef}

theorem silentlyOk {act : Build Unit} {answer : Answer} (ran : (silently act).run a = .ok answer b) :
    act.run a = .ok () b := by
  obtain ⟨_, _, done, last⟩ := bindOk ran
  cases last
  exact done

theorem Call.changesDecl (touched : h.ref ∈ call.changed) :
    (∃ change : DeclCall, call = .decl change ∧ h.ref ∈ change.changed) ∨ call.defines h = true := by
  cases call with
  | decl change => exact .inl ⟨change, rfl, touched⟩
  | type change => cases change <;> simp [changed, TypeCall.changed, Handle.ref] at touched
  | expr change => cases change <;> simp [changed, ExprCall.changed, Handle.ref] at touched
  | grow change => cases change <;> simp [changed, GrowCall.changed, Handle.ref] at touched
  | putTopLevel place taken change =>
    cases change with
    | defineFunction f =>
      refine .inr (beq_iff_eq.mpr (refInjective ?_))
      simpa [changed, TopLevelCall.changed, Handle.ref, eq_comm] using touched
    | _ => simp [changed, TopLevelCall.changed, Handle.ref] at touched
  | _ => simp [changed, Handle.ref] at touched

/-- A call that succeeds marks no function, except the one that it defines. -/
theorem Call.unmarking {answer : Answer} (ran : call.perform.run a = .ok answer b) (other : call.defines h = false)
    (defined : b.Defined h) : a.Defined h := by
  by_cases touched : h.ref ∈ call.changed
  · obtain ⟨change, rfl, inside⟩ := (changesDecl touched).resolve_right (by simp [other])
    have named {g : DeclRef} (only : change.changed = [g.ref]) : h = g := by
      rw [only] at inside
      exact refInjective (List.mem_singleton.mp inside)
    cases change with
    | setVarQualifiers d quals =>
      cases named rfl
      exact absurd defined (variableUnmarking (silentlyOk ran))
    | body f =>
      obtain ⟨place, asked, _⟩ := Table.mappedOk ran
      cases named (g := f.handle) rfl
      exact (bodyUnmarking asked).defined defined
    | setQualifiers f quals =>
      cases named (g := f.handle) rfl
      exact (qualifiersUnmarking (silentlyOk ran)).defined defined
    | setMethodQualifiers f quals =>
      cases named (g := f.handle) rfl
      exact (methodQualifiersUnmarking (silentlyOk ran)).defined defined
    | addMemberInit f member args =>
      cases named (g := f.handle) rfl
      exact (memberInitUnmarking (silentlyOk ran)).defined defined
    | _ => contradiction
  · obtain ⟨f, found, marked⟩ := defined
    exact ⟨f, (call.confined.succeeded ran).marked touched found marked, marked⟩

theorem Call.definesCases (defines : call.defines h = true) :
    ∃ place taken f, call = .putTopLevel place taken (.defineFunction f) ∧ f.handle = h := by
  cases call with
  | putTopLevel place taken change =>
    cases change with
    | defineFunction f => exact ⟨place, taken, f, rfl, beq_iff_eq.mp defines⟩
    | _ => contradiction
  | _ => contradiction

theorem Call.definesOk {answer : Answer} (ran : call.perform.run a = .ok answer b) (defines : call.defines h = true) :
    ¬a.Defined h ∧ b.Defined h := by
  obtain ⟨place, taken, f, rfl, rfl⟩ := definesCases defines
  obtain ⟨g, done, _⟩ := Table.mappedOk ran
  exact definedOk done

theorem Changes.keepsDefined {given : Slot → Prop} (changes : Changes given a b) (defined : a.Defined h) :
    b.Defined h := by
  induction changes with
  | refl => exact defined
  | tail before change ih =>
    obtain ⟨f, found, marked⟩ := ih
    have here := Arena.nodeIff.mp found
    obtain ⟨m, now, evolved⟩ := change.keeps (c := .decl) here.2
    have own := here.1.trans change.number.symm
    rcases evolved with rfl | grows
    · exact ⟨f, Arena.nodeIff.mpr ⟨own, now⟩, marked⟩
    · obtain ⟨g, rfl, continues, _⟩ := DeclNode.Grows.function grows
      exact ⟨g, Arena.nodeIff.mpr ⟨own, now⟩, continues.defined marked⟩

theorem Call.strayedDefinition (ran : call.perform.run a = .error (.foreignHandle .scope) b)
    (defines : call.defines h = true) :
    h.arena = a.number ∧ (∃ scope, call.filled? = some scope ∧ scope.arena ≠ a.number) ∧ ¬a.Defined h ∧ b.Defined h := by
  obtain ⟨place, taken, f, rfl, rfl⟩ := definesCases defines
  rcases defineRefused (mappedRefused ran) with ⟨_, early⟩ | ⟨data, found, _, fresh, rfl, late⟩
  · exact absurd rfl early
  · rcases Arena.nodeRefused late with ⟨foreign, _⟩ | ⟨_, empty⟩
    · refine ⟨nodeOwn found, ⟨_, rfl, foreign⟩, ?_, _, Arena.replacedNode found _, rfl⟩
      rintro ⟨old, before, defined⟩
      cases Except.ok.inj (found.symm.trans before)
      exact absurd defined (by simp [fresh])
    · contradiction

theorem Call.definitionRefused {cause : Misuse} (ran : call.perform.run a = .error cause b)
    (defines : call.defines h = true) (early : cause ≠ .foreignHandle .scope) :
    b = a ∨ ∀ scope, call.filled? = some scope → scope.arena = a.number := by
  obtain ⟨place, taken, f, rfl, rfl⟩ := definesCases defines
  rcases defineRefused (mappedRefused ran) with ⟨same, _⟩ | ⟨_, _, _, _, _, late⟩
  · exact .inl same
  · rcases Arena.nodeRefused late with ⟨_, cause⟩ | ⟨own, _⟩
    · exact absurd cause early
    · refine .inr fun scope filled => ?_
      cases filled
      exact own

end Call

structure Event where
  arena : Nat
  call : Call
  result : Except Misuse Answer

def Event.defines (h : DeclRef) (e : Event) : Bool := e.call.defines h && e.result.isOk

/-- The call was to define the function, and was refused for the scope. -/
def Event.strays (h : DeclRef) (e : Event) : Bool :=
  e.call.defines h &&
    match e.result with
    | .ok _ => false
    | .error cause => cause == .foreignHandle .scope

theorem Event.strayed {h : DeclRef} {e : Event} (strays : e.strays h = true) :
    e.call.defines h = true ∧ e.result = .error (.foreignHandle .scope) := by
  obtain ⟨defines, refused⟩ := Bool.and_eq_true_iff.mp strays
  refine ⟨defines, ?_⟩
  split at refused
  · contradiction
  · rename_i cause failed
    rw [failed, beq_iff_eq.mp refused]

theorem Event.apart {h : DeclRef} {e : Event} (strays : e.strays h = true) : e.defines h = false := by
  simp [defines, (strayed strays).2, Except.isOk, Except.toBool]

section Marks

variable {p : Policy} {w : World} {n : Nat} {call : Call} {a b : Arena} {result : Except Misuse Answer} {h : DeclRef}

theorem Ends.marked (ends : Ends call.perform a result b)
    (marks : Event.defines h ⟨n, call, result⟩ = true ∨ Event.strays h ⟨n, call, result⟩ = true) :
    ¬a.Defined h ∧ b.Defined h := by
  rcases marks with defines | strays
  · obtain ⟨defines, done⟩ := Bool.and_eq_true_iff.mp defines
    cases result with
    | error cause => contradiction
    | ok answer => exact Call.definesOk ends defines
  · obtain ⟨defines, refused⟩ := Event.strayed strays
    dsimp only at refused
    subst refused
    exact (Call.strayedDefinition ends defines).2.2

theorem World.Sound.unmarked (sound : w.Sound p) (allowed : w.Allows p n call)
    (here : w.session.arenas[n]? = some a) (ends : Ends call.perform a result b)
    (other : Event.defines h ⟨n, call, result⟩ = false) (steady : Event.strays h ⟨n, call, result⟩ = false) :
    b.Defined h ↔ a.Defined h := by
  refine ⟨fun defined => ?_, (sound.outcome allowed here ends).changes.keepsDefined⟩
  cases result with
  | ok answer =>
    refine Call.unmarking ends ?_ defined
    simpa [Event.defines, Except.isOk, Except.toBool] using other
  | error cause =>
    have stored (extended : Extends (w.Given p call) a b) : a.Defined h := by
      obtain ⟨f, found, marked⟩ := defined
      exact ⟨f, (Frame.stored (S := []) (C := []) extended).marked (by simp) found marked, marked⟩
    cases defines : call.defines h with
    | true =>
      have early : cause ≠ .foreignHandle .scope := by simpa [Event.strays, defines] using steady
      rcases Call.definitionRefused ends defines early with rfl | own
      · exact defined
      · exact stored (sound.refused allowed here ends fun _ => own)
    | false =>
      by_cases touched : h.ref ∈ call.changed
      · obtain ⟨change, rfl, _⟩ := (call.changesDecl touched).resolve_right (by simp [defines])
        exact stored (sound.refused allowed here ends nofun)
      · obtain ⟨f, found, marked⟩ := defined
        exact ⟨f, ends.frame.marked touched found marked, marked⟩

end Marks

namespace World

inductive History (p : Policy) : List Event → World → Prop where
  | start : History p [] empty
  | newArena {es : List Event} {w : World} (before : History p es w) (d : Dialect) :
      History p es ⟨(w.session.newArena d).2, w.held⟩
  | ask {es : List Event} {w : World} {n : Nat} {q : Query} {result : Except Misuse Answer} (before : History p es w)
      (held : ∀ i ∈ q.handles, w.Holds p i) (ran : w.session.ask n q = some result) :
      History p es ⟨w.session, w.held ++ issuedBy result⟩
  | call {es : List Event} {w : World} {n : Nat} {call : Call} {result : Except Misuse Answer} {after : Session}
      (before : History p es w) (allowed : w.Allows p n call) (ran : w.session.step n call = some (result, after)) :
      History p (es ++ [⟨n, call, result⟩]) ⟨after, w.held ++ issuedBy result⟩

variable {p : Policy} {es : List Event} {w : World}

theorem History.reachable (history : w.History p es) : w.Reachable p := by
  induction history with
  | start => exact .start
  | newArena before d ih => exact ih.tail (.newArena d)
  | ask before held ran ih => exact ih.tail (.ask held ran)
  | call before allowed ran ih => exact ih.tail (.call allowed ran)

theorem Reachable.history (reachable : w.Reachable p) : ∃ es, w.History p es := by
  induction reachable with
  | refl => exact ⟨[], .start⟩
  | tail before step ih =>
    obtain ⟨es, history⟩ := ih
    cases step with
    | newArena d => exact ⟨es, history.newArena d⟩
    | ask held ran => exact ⟨es, history.ask held ran⟩
    | call allowed ran => exact ⟨_, history.call allowed ran⟩

def Defined (w : World) (h : DeclRef) : Prop := ∃ a, w.session.arenas[h.arena]? = some a ∧ a.Defined h

theorem definedNewArena {d : Dialect} {held : List Issued} {h : DeclRef} :
    Defined ⟨(w.session.newArena d).2, held⟩ h ↔ w.Defined h := by
  unfold Defined
  simp only [Session.newArena, Array.getElem?_push]
  split
  · rename_i last
    constructor
    · rintro ⟨a, ⟨⟩, f, found, _⟩
      have there : (Arena.new w.session.arenas.size d).decls[h.index]? = some (.function f) :=
        (Arena.nodeIff.mp found).2
      simp [Arena.new] at there
    · rintro ⟨a, found, _⟩
      simp [last] at found
  · rfl

theorem definedAfter {n : Nat} {a b : Arena} {held : List Issued} {h : DeclRef}
    (here : w.session.arenas[n]? = some a) :
    Defined ⟨⟨w.session.arenas.setIfInBounds n b⟩, held⟩ h ↔ if n = h.arena then b.Defined h else w.Defined h := by
  have inside := (Array.getElem?_eq_some_iff.mp here).1
  unfold Defined
  by_cases same : n = h.arena
  · simp [← same, inside]
  · simp [same, Array.getElem?_setIfInBounds_ne]

theorem History.definitions (history : w.History p es) (h : DeclRef) :
    (w.Defined h ∧ es.countP (·.defines h) + es.countP (·.strays h) = 1) ∨
      (¬w.Defined h ∧ es.countP (·.defines h) + es.countP (·.strays h) = 0) := by
  induction history with
  | start => exact .inr ⟨by simp [Defined, empty, Session.empty], rfl⟩
  | newArena before d ih => simpa only [definedNewArena] using ih
  | ask before held ran ih => exact ih
  | @call es w n call result after before allowed ran ih =>
    obtain ⟨a, b, here, rfl, ends⟩ := Session.stepCases ran
    rw [definedAfter here, List.countP_append, List.countP_append, List.countP_singleton, List.countP_singleton]
    by_cases marks : Event.defines h ⟨n, call, result⟩ = true ∨ Event.strays h ⟨n, call, result⟩ = true
    · obtain ⟨fresh, defined⟩ := ends.marked marks
      -- a call on another arena refuses the handle
      have same : n = h.arena := by
        obtain ⟨f, found, _⟩ := defined
        exact ((nodeOwn found).trans (ends.frame.number.trans (before.reachable.sound.numbered n a here))).symm
      have earlier : w.Defined h ↔ a.Defined h := by simp [Defined, ← same, here]
      rw [earlier] at ih
      rw [if_pos same]
      have none := (ih.resolve_left fun already => fresh already.1).2
      refine .inl ⟨defined, ?_⟩
      cases strays : Event.strays h ⟨n, call, result⟩ with
      | true =>
        rw [Event.apart strays]
        simp only [if_true, Bool.false_eq_true, if_false]
        omega
      | false =>
        rw [marks.resolve_right (by simp [strays])]
        simp only [if_true, Bool.false_eq_true, if_false]
        omega
    · obtain ⟨other, steady⟩ := not_or.mp marks
      have kept := before.reachable.sound.unmarked allowed here ends (by simpa using other) (by simpa using steady)
      rw [if_neg other, if_neg steady]
      by_cases same : n = h.arena
      · have earlier : w.Defined h ↔ a.Defined h := by simp [Defined, ← same, here]
        rw [if_pos same, kept, ← earlier]
        exact ih
      · rw [if_neg same]
        exact ih

theorem History.strayed (history : w.History p es) {h : DeclRef} {e : Event} (listed : e ∈ es)
    (strays : e.strays h = true) : e.arena = h.arena ∧ ∃ scope, e.call.filled? = some scope ∧ scope.arena ≠ h.arena := by
  induction history with
  | start => contradiction
  | newArena before d ih => exact ih listed
  | ask before held ran ih => exact ih listed
  | @call es w n call result after before allowed ran ih =>
    rcases List.mem_append.mp listed with earlier | last
    · exact ih earlier
    · cases List.mem_singleton.mp last
      obtain ⟨a, b, here, rfl, ends⟩ := Session.stepCases ran
      obtain ⟨defines, refused⟩ := Event.strayed strays
      dsimp only at refused
      subst refused
      obtain ⟨own, abroad, _⟩ := Call.strayedDefinition ends defines
      have number := before.reachable.sound.numbered n a here
      exact ⟨(own.trans number).symm, own ▸ abroad⟩

end World

section Text

variable {a : Arena} {data : FuncDecl} {text : String}

theorem lastAppended {s t : String} {c : Char} (last : t.toList.getLast? = some c) :
    (s ++ t).toList.getLast? = some c := by
  simp [String.toList_append, List.getLast?_append, last]

theorem spellsFunctionEnd (lawful : data.Lawful) (spelled : a.Spells (Render.decl a (.function data)) text) :
    text.toList.getLast? = some (if data.body.isSome then '\x7d' else ';') := by
  obtain ⟨head, tail, _, ending, rfl⟩ := Arena.spellsAppend.mp spelled
  refine lastAppended ?_
  cases marked : data.special with
  | some mark =>
    have bodyless := lawful.special (by simp [marked])
    simp only [functionEnd, marked, Arena.spellsOfText] at ending
    subst ending
    cases mark <;> simp [bodyless, MethodSpecial.suffix]
  | none =>
    cases filled : data.body with
    | none =>
      simp only [functionEnd, marked, filled, Arena.spellsOfText] at ending
      simp [ending]
    | some scope =>
      simp only [functionEnd, marked, filled, Arena.spellsAppend, spellsBlock filled] at ending
      obtain ⟨inits, _, _, ⟨body, _, rfl⟩, rfl⟩ := ending
      exact lastAppended (lastAppended rfl)

end Text

/-- What holds of a function at any time, and what can still become of it. It counts as defined exactly if one call
marked it. That call defined it, unless it came through a view whose arena had been exchanged. -/
theorem functionLifecycle {p : Policy} {es : List Event} {w : World} (history : w.History p es) {n : Nat} {a : Arena}
    (here : w.session.arenas[n]? = some a) {i : Nat} {data : FuncDecl}
    (found : a.decls[i]? = some (.function data)) :
    data.Lawful ∧ (data.lifecycle = .split → data.special = none) ∧
    es.countP (·.defines ⟨n, i⟩) + es.countP (·.strays ⟨n, i⟩) = (if data.defined then 1 else 0) ∧
    (∀ e ∈ es, e.strays ⟨n, i⟩ = true → e.arena = n ∧ ∃ scope, e.call.filled? = some scope ∧ scope.arena ≠ n) ∧
    (∀ v, World.Run p w v → ∃ b later, v.session.arenas[n]? = some b ∧ b.decls[i]? = some (.function later) ∧
      data.Continues later) ∧
    ((∃ cause b, (Call.decl (.body ⟨⟨n, i⟩⟩)).perform.run a = .error cause b) ↔
      data.lifecycle = .forward ∨ data.special.isSome) ∧
    (∀ answer b, (Call.decl (.body ⟨⟨n, i⟩⟩)).perform.run a = .ok answer b →
      ∃ scope later, answer = .place ⟨.function, scope⟩ ∧ b.decls[i]? = some (.function later) ∧
        later.body = some scope ∧ ∀ old, data.body = some old → scope = old) ∧
    (∀ table text, table.lookup (⟨n, i⟩ : DeclRef).ref = none →
      (a.withComments table).render (⟨n, i⟩ : DeclRef).ref = .ok text →
      text.toList.getLast? = some (if data.body.isSome then '\x7d' else ';')) ∧
    a.answer (.isForward ⟨⟨n, i⟩⟩) = .ok (.flag data.body.isNone) := by
  have reachable := history.reachable
  have lawful := reachable.lawful here found
  have number := reachable.sound.numbered n a here
  have node : a.node (⟨n, i⟩ : DeclRef) = .ok (.function data) := Arena.nodeIff.mpr ⟨number.symm, found⟩
  refine ⟨lawful, lawful.unmarked, ?_, fun e listed => history.strayed listed, ?_, ?_, ?_, ?_, ?_⟩
  · have marked : w.Defined ⟨n, i⟩ ↔ data.defined = true := by simp [World.Defined, here, Arena.Defined, node]
    have counted := history.definitions ⟨n, i⟩
    rw [marked] at counted
    rcases counted with ⟨defined, once⟩ | ⟨undefined, never⟩
    · rw [once, if_pos defined]
    · rw [never, if_neg undefined]
  · exact fun v run => run.functionContinues reachable.sound here found
  · exact bodyRefused (f := ⟨⟨n, i⟩⟩) node
  · intro answer b ran
    obtain ⟨scope, later, same, now, filled, kept⟩ := bodyAnswered (f := ⟨⟨n, i⟩⟩) node ran
    exact ⟨scope, later, same, (Arena.nodeIff.mp now).2, filled, kept⟩
  · intro table text bare rendered
    have spelled := Arena.spellsDecl (a := a.withComments table) (by simpa using node) bare rendered
    exact spellsFunctionEnd lawful spelled
  · simp [Arena.answer, functionAtIff.mpr node]

def World.strayed : World := World.parted.act 1 misplacedDefinition

/-- The second half never comes into a scope: one call marked the function and was refused, and so is every later one. -/
theorem misplacedDefinitionSticks :
    ∃ es a data, World.strayed.History ⟨false, false, true⟩ es ∧ World.strayed.session.arenas[1]? = some a ∧
      a.decls[0]? = some (.function data) ∧ data.defined = true ∧
      es.countP (·.defines ⟨1, 0⟩) = 0 ∧ es.countP (·.strays ⟨1, 0⟩) = 1 ∧
      World.strayed.session.step 1 (.putTopLevel ⟨.topLevel, ⟨1, 0⟩⟩ topLevelTaken (.defineFunction ⟨⟨1, 0⟩⟩)) =
        some (.error (.alreadyDefined (.ofString "f")), World.strayed.session) := by
  obtain ⟨es, before⟩ := World.partedReachable.history
  have allowed : World.parted.Allows ⟨false, false, true⟩ 1 misplacedDefinition :=
    World.allowsHeld (by decide) rfl (.inl rfl)
  have refused : World.parted.session.step 1 misplacedDefinition =
      some (.error (.foreignHandle .scope), World.strayed.session) := rfl
  obtain ⟨a, here⟩ : ∃ a, World.parted.session.arenas[1]? = some a := ⟨_, rfl⟩
  obtain ⟨data, found, fresh⟩ : ∃ data, a.decls[0]? = some (.function data) ∧ data.defined = false := by
    cases here
    exact ⟨_, rfl, rfl⟩
  obtain ⟨_, _, counted, _⟩ := functionLifecycle before here found
  have none : es.countP (·.defines ⟨1, 0⟩) + es.countP (·.strays ⟨1, 0⟩) = 0 := by simpa [fresh] using counted
  refine ⟨_, _, _, before.call allowed refused, rfl, rfl, rfl, ?_, ?_, rfl⟩
  · have failed : Event.defines ⟨1, 0⟩ ⟨1, misplacedDefinition, .error (.foreignHandle .scope)⟩ = false := rfl
    rw [List.countP_append, List.countP_singleton, failed]
    exact (Nat.add_eq_zero_iff.mp none).1
  · have strays : Event.strays ⟨1, 0⟩ ⟨1, misplacedDefinition, .error (.foreignHandle .scope)⟩ = true := rfl
    rw [List.countP_append, List.countP_singleton, strays, (Nat.add_eq_zero_iff.mp none).2]
    rfl

end CSource
