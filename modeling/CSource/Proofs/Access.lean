import CSource.Proofs.Balance
import CSource.Proofs.Tags

/-!
Access to members. A reader of a definition takes the access of a member from the last label before it. Every labeled
region writes its own label, so its members are read under it; the region without a label has none to write, and its
members are read under whatever label stands before it.
-/

namespace CSource

open Pieces Render Build

def AggregateKind.defaultAccess : AggregateKind → Access
  | structKind | unionKind => .publicAccess
  | classKind => .privateAccess

def wordChar (c : Char) : Bool := c.isAlphanum || c == '_'

def accessOf (word : List Char) : Option Access :=
  [Access.publicAccess, .protectedAccess, .privateAccess].find? (·.keyword.toList == word)

/-- What a reader of labels knows: the last label, the brackets that are open, the word that is being read, and the
access that has been named if only blanks have followed. -/
structure Labels where
  last : Option Access
  owed : List Char
  word : List Char
  named : Option Access
  deriving DecidableEq

namespace Labels

def since (last : Option Access) : Labels := ⟨last, [], [], none⟩

/-- Only outside of brackets a label is one of this body. -/
def next (l : Labels) (c : Char) : Labels :=
  if l.owed ≠ [] then { l with owed := (owedBehind l.owed c).getD l.owed }
  else if wordChar c then { l with word := l.word ++ [c], named := none }
  else if c.isWhitespace then { l with word := [], named := (accessOf l.word).or l.named }
  else if c = ':' then since (((accessOf l.word).or l.named).or l.last)
  else { since l.last with owed := (owedBehind [] c).getD [] }

def read (l : Labels) (text : String) : Labels := text.toList.foldl next l

def after (l : Labels) (earlier : Option Access) : Labels := { l with last := l.last.or earlier }

end Labels

def Unlabeled (text : String) : Prop := (Labels.since none).read text = .since none

instance (text : String) : Decidable (Unlabeled text) := inferInstanceAs (Decidable (_ = _))

def accessBehind (kind : AggregateKind) (front : String) : Access :=
  ((Labels.since none).read front).last.getD kind.defaultAccess

def lastLabel (regions : List Region) : Option Access := regions.foldl (fun earlier r => r.access.or earlier) none

section Reading

variable {l : Labels} {earlier : Option Access} {s t : String}

theorem readAppend : l.read (s ++ t) = (l.read s).read t := by
  simp [Labels.read, String.toList_append]

theorem nextAfter (c : Char) : (l.after earlier).next c = (l.next c).after earlier := by
  obtain ⟨last, owed, word, named⟩ := l
  cases owed with
  | cons d owed => simp [Labels.next, Labels.after]
  | nil =>
    by_cases isWord : wordChar c = true
    · simp [Labels.next, Labels.after, isWord]
    · by_cases blank : c.isWhitespace = true
      · simp [Labels.next, Labels.after, isWord, blank]
      · by_cases colon : c = ':'
        · subst colon
          simp [Labels.next, Labels.after, Labels.since, isWord, blank, Option.or_assoc]
        · simp [Labels.next, Labels.after, Labels.since, isWord, blank, colon]

theorem readAfter : (l.after earlier).read t = (l.read t).after earlier := by
  unfold Labels.read
  induction t.toList generalizing l with
  | nil => rfl
  | cons c cs ih => rw [List.foldl_cons, nextAfter, ih, List.foldl_cons]

theorem sinceAfter (last : Option Access) : (Labels.since none).after last = .since last := by
  simp [Labels.after, Labels.since]

theorem Unlabeled.read (plain : Unlabeled t) (last : Option Access) : (Labels.since last).read t = .since last := by
  rw [← sinceAfter, readAfter, show (Labels.since none).read t = .since none from plain]

theorem Unlabeled.append (first : Unlabeled s) (second : Unlabeled t) : Unlabeled (s ++ t) := by
  unfold Unlabeled
  rw [readAppend, first.read, second.read]

theorem labelRead (access : Option Access) (earlier : Option Access) :
    (Labels.since earlier).read (labelText access) = .since (access.or earlier) := by
  have alone : (Labels.since none).read (labelText access) = .since access := by
    rcases access with _ | access
    · rfl
    · cases access <;> rfl
  rw [← sinceAfter, readAfter, alone]
  rfl

variable {a : Arena}

theorem regionRead {r : Region} (plain : ∀ t, a.render r.scope.ref = .ok t → Unlabeled t) (told : r.Text a t) :
    (Labels.since earlier).read t = .since (r.access.or earlier) := by
  obtain ⟨written, shown, rfl⟩ := told
  rw [readAppend, labelRead, (plain written shown).read]

theorem regionsRead {regions : List Region} {texts : List String}
    (plain : ∀ r ∈ regions, ∀ t, a.render r.scope.ref = .ok t → Unlabeled t)
    (told : List.Forall₂ (Region.Text a) regions texts) :
    (Labels.since earlier).read (String.join texts) =
      .since (regions.foldl (fun earlier r => r.access.or earlier) earlier) := by
  induction told generalizing earlier with
  | nil => rfl
  | cons first _ ih =>
    obtain ⟨own, others⟩ := List.forall_mem_cons.mp plain
    rw [String.join_cons, readAppend, regionRead own first, ih others, List.foldl_cons]

end Reading

def Aggregate.IntroText (data : Aggregate) (a : Arena) (text : String) : Prop :=
  ∃ bases, List.Forall₂ (Base.Text a) data.bases bases ∧
    text = data.words ++ (if data.isFinal then " final" else "") ++ baseListText bases

/-- In the definition of the aggregate, the members of the region are read under that access. The front of the body is
what the regions before it have written, and the label of the region itself. -/
def Arena.ReadUnder (a : Arena) (ty : TypeRef) (data : Aggregate) (before : List Region) (r : Region)
    (access : Access) : Prop :=
  ∀ text, a.render ty.ref = .ok text →
    ∃ intro texts members rear, data.IntroText a intro ∧ List.Forall₂ (Region.Text a) before texts ∧
      a.render r.scope.ref = .ok members ∧
      text = a.commented ty.ref
        (intro ++ "\x7b" ++ (String.join texts ++ labelText r.access) ++ members ++ rear ++ "\x7d") ∧
      accessBehind data.kind (String.join texts ++ labelText r.access) = access

theorem textsSplit {α : Type} {P : α → String → Prop} {xs ys : List α} {texts : List String}
    (each : List.Forall₂ P (xs ++ ys) texts) :
    ∃ first last, List.Forall₂ P xs first ∧ List.Forall₂ P ys last ∧ texts = first ++ last := by
  induction xs generalizing texts with
  | nil => exact ⟨[], texts, .nil, each, rfl⟩
  | cons x xs ih =>
    cases each with
    | cons own others =>
      obtain ⟨first, last, front, rear, rfl⟩ := ih others
      exact ⟨_ :: first, last, .cons own front, rear, rfl⟩

section Regions

variable {a b : Arena} {ty : TypeRef} {data : Aggregate} {before behind : List Region} {r : Region}

def Aggregate.accessOf (data : Aggregate) (before : List Region) (r : Region) : Access :=
  (r.access.or (lastLabel before)).getD data.kind.defaultAccess

theorem readUnder (tag : a.node ty = .ok (.aggregate data)) (split : data.regions = before ++ r :: behind)
    (plain : ∀ q ∈ before, ∀ t, a.render q.scope.ref = .ok t → Unlabeled t) :
    a.ReadUnder ty data before r (data.accessOf before r) := by
  intro text rendered
  obtain ⟨inner, spelled, rfl⟩ := renderedIff.mp rendered
  rw [Arena.piecesOf tag] at spelled
  obtain ⟨_, ⟨bases, regions, based, each, rfl⟩, rfl⟩ := spellsAggregate.mp spelled
  rw [split] at each
  obtain ⟨texts, _, first, last, rfl⟩ := textsSplit each
  cases last with
  | cons own rest =>
    rename_i others
    obtain ⟨members, shown, rfl⟩ := own
    refine ⟨_, texts, members, String.join others, ⟨bases, based, rfl⟩, first, shown, ?_, ?_⟩
    · refine congrArg (a.commented ty.ref) ?_
      show data.words ++ _ = _
      simp only [String.join_append, String.join_cons, String.append_assoc]
    · rw [accessBehind, readAppend, regionsRead plain first, labelRead]
      rfl

theorem accessOfLabeled {x : Access} (labeled : r.access = some x) : data.accessOf before r = x := by
  simp [Aggregate.accessOf, labeled]

theorem accessOfUnlabeled (bare : r.access = none) :
    data.accessOf before r = data.kind.defaultAccess ↔
      ∀ x, lastLabel before = some x → x = data.kind.defaultAccess := by
  unfold Aggregate.accessOf
  rw [bare]
  cases lastLabel before <;> simp

def TypeCall.region? : TypeCall → Option (ClassRef × Option Access)
  | members c => some (c, none)
  | addRegion c access => some (c, some access)
  | _ => none

theorem regionMade {call : TypeCall} {k : ClassRef} {label : Option Access} {q : Place}
    (asked : call.region? = some (k, label)) (tag : a.node k.ty = .ok (.aggregate data))
    (fresh : label = none → data.defaultScope = none) (ran : (Call.type call).perform.run a = .ok (.place q) b) :
    b.node k.ty = .ok (.aggregate { data with regions := data.regions ++ [⟨label, q.scope⟩] }) := by
  cases call with
  | members c =>
    cases asked
    obtain ⟨_, done, same⟩ := Table.mappedOk ran
    cases same
    rw [runMembers tag, fresh rfl] at done
    cases done
    exact Arena.replacedNode (Arena.nodePushKeeps (c := .scope) _ tag) _
  | addRegion c access =>
    cases asked
    obtain ⟨_, done, same⟩ := Table.mappedOk ran
    cases same
    obtain ⟨_, _, passed, rest⟩ := bindOk done
    obtain ⟨rfl, _⟩ := (requireChecks _).ok passed
    obtain ⟨scope, mid, opened, rest⟩ := bindOk rest
    cases (runAlloc .scope ⟨.members k.ty true, []⟩ a).symm.trans opened
    have there := Arena.nodePushKeeps (c := .scope) ⟨.members k.ty true, []⟩ tag
    obtain ⟨_, _, changed, given⟩ := bindOk rest
    cases given
    obtain ⟨old, _, was, updated⟩ := bindOk changed
    obtain ⟨found, rfl⟩ := readOk was
    cases updated
    cases (aggregateAtIff.mpr there).symm.trans found
    exact Arena.replacedNode there _
  | _ => contradiction

end Regions

/-- The members of a labeled region are read under its label. Those of the region without a label are read under the
last label that was there when the region was opened, whatever is added later, and under the default access only if
there was none or it named that access. -/
theorem membersReadUnder {p : Policy} {w : World} (reachable : w.Reachable p) {n : Nat} {a : Arena}
    (here : w.session.arenas[n]? = some a) :
    (∀ (ty : TypeRef) (data : Aggregate) (before behind : List Region) (r : Region),
      a.node ty = .ok (.aggregate data) → data.regions = before ++ r :: behind →
      (∀ q ∈ before, ∀ t, a.render q.scope.ref = .ok t → Unlabeled t) →
      a.ReadUnder ty data before r (data.accessOf before r) ∧
        (∀ x, r.access = some x → data.accessOf before r = x) ∧
        (r.access = none → (data.accessOf before r = data.kind.defaultAccess ↔
          ∀ x, lastLabel before = some x → x = data.kind.defaultAccess))) ∧
    ∀ (call : TypeCall) (k : ClassRef) (label : Option Access) (data : Aggregate) (q : Place) (b : Arena),
      call.region? = some (k, label) → a.node k.ty = .ok (.aggregate data) →
      (label = none → data.defaultScope = none) → w.Allows p n (.type call) →
      (Call.type call).perform.run a = .ok (.place q) b → ∀ v, World.Run p (w.act n (.type call)) v →
      ∃ c later behind, v.session.arenas[n]? = some c ∧ c.node k.ty = .ok (.aggregate later) ∧
        later.regions = data.regions ++ ⟨label, q.scope⟩ :: behind ∧
        ((∀ r ∈ data.regions, ∀ t, c.render r.scope.ref = .ok t → Unlabeled t) →
          c.ReadUnder k.ty later data.regions ⟨label, q.scope⟩ (data.accessOf data.regions ⟨label, q.scope⟩)) := by
  refine ⟨fun ty data before behind r tag split plain =>
    ⟨readUnder tag split plain, fun _ => accessOfLabeled, accessOfUnlabeled⟩, ?_⟩
  intro call k label data q b asked tag fresh allowed ran v run
  have made := regionMade asked tag fresh ran
  obtain ⟨c, now, precedes⟩ := reachable.madePrecedes here allowed ran run
  obtain ⟨m, kept, follows⟩ := precedes.node made
  obtain ⟨later, rfl, kind, behind, regions⟩ : ∃ later, m = .aggregate later ∧ later.kind = data.kind ∧
      (data.regions ++ [⟨label, q.scope⟩]) <+: later.regions := by
    cases (follows : TypeNode.Follows _ _) with
    | same => exact ⟨_, rfl, rfl, List.prefix_rfl⟩
    | aggregate follows => exact ⟨_, rfl, follows.kind, follows.regions⟩
  have split : later.regions = data.regions ++ ⟨label, q.scope⟩ :: behind := by simp [← regions]
  refine ⟨c, later, behind, now, kept, split, fun plain => ?_⟩
  have same : data.accessOf data.regions ⟨label, q.scope⟩ = later.accessOf data.regions ⟨label, q.scope⟩ := by
    simp only [Aggregate.accessOf, kind]
  rw [same]
  exact readUnder kept split plain

/-- A struct with a private region and a member in it. -/
def World.guarded : World :=
  ((((empty.grow .cxx).act 0 (.type (.newAggregate .structKind (.ofString "S")))).act 0
    (.type (.addRegion ⟨⟨0, 1⟩, ⟨0, 0⟩⟩ .privateAccess))).act 0 (.type (.raw "int"))).act 0
    (.putAny ⟨.member, ⟨0, 0⟩⟩ (.var (.ofString "a") ⟨0, 2⟩ none))

theorem World.guardedReachable : guarded.Reachable .strict := by
  refine .act (.act (.act (.act (Reachable.start.grow .cxx) ?_) ?_) ?_) ?_
  all_goals exact allowsHeld (by decide) rfl (by decide)

/-- Then the members without a label are asked for, and get one. -/
def World.guardedMore : World :=
  (guarded.act 0 (.type (.members ⟨⟨0, 1⟩, ⟨0, 0⟩⟩))).act 0
    (.putAny ⟨.member, ⟨0, 1⟩⟩ (.var (.ofString "b") ⟨0, 2⟩ none))

theorem World.guardedMoreRun : Run .strict (guarded.act 0 (.type (.members ⟨⟨0, 1⟩, ⟨0, 0⟩⟩))) guardedMore :=
  .act .refl (allowsHeld (by decide) rfl (by decide))

theorem membersReadPrivate : ∃ a c later, World.guarded.session.arenas[0]? = some a ∧
    World.guardedMore.session.arenas[0]? = some c ∧ c.node (⟨0, 1⟩ : TypeRef) = .ok (.aggregate later) ∧
    later.kind.defaultAccess = .publicAccess ∧
    c.render (⟨0, 1⟩ : TypeRef).ref = .ok "struct S\x7bprivate:\nint a;\nint b;\x7d" ∧
    a.ReadUnder ⟨0, 1⟩ ⟨.structKind, .ofString "S", false, [], [⟨some .privateAccess, ⟨0, 0⟩⟩]⟩ []
      ⟨some .privateAccess, ⟨0, 0⟩⟩ .privateAccess ∧
    c.ReadUnder ⟨0, 1⟩ later [⟨some .privateAccess, ⟨0, 0⟩⟩] ⟨none, ⟨0, 1⟩⟩ .privateAccess := by
  obtain ⟨a, here⟩ : ∃ a, World.guarded.session.arenas[0]? = some a := ⟨_, rfl⟩
  obtain ⟨regions, opened⟩ := membersReadUnder World.guardedReachable here
  have tag : a.node (⟨0, 1⟩ : TypeRef) =
      .ok (.aggregate ⟨.structKind, .ofString "S", false, [], [⟨some .privateAccess, ⟨0, 0⟩⟩]⟩) := by
    cases here
    rfl
  obtain ⟨labeled, _, _⟩ := regions _ _ [] [] ⟨some .privateAccess, ⟨0, 0⟩⟩ tag rfl nofun
  obtain ⟨b, ran⟩ : ∃ b, (Call.type (.members ⟨⟨0, 1⟩, ⟨0, 0⟩⟩)).perform.run a = .ok (.place ⟨.member, ⟨0, 1⟩⟩) b := by
    cases here
    exact ⟨_, rfl⟩
  obtain ⟨c, later, behind, there, kept, _, read⟩ := opened (.members ⟨⟨0, 1⟩, ⟨0, 0⟩⟩) _ none _ _ b rfl tag
    (fun _ => rfl) (World.allowsHeld (by decide) rfl (by decide)) ran _ World.guardedMoreRun
  have plain : ∀ t, c.render (⟨0, 0⟩ : ScopeRef).ref = .ok t → Unlabeled t := by
    intro t shown
    have text : c.render (⟨0, 0⟩ : ScopeRef).ref = .ok "int a;\n" := by
      cases there
      rfl
    cases Except.ok.inj (text.symm.trans shown)
    decide
  have isStruct : later.kind.defaultAccess = .publicAccess := by
    cases there
    cases kept
    rfl
  have whole : c.render (⟨0, 1⟩ : TypeRef).ref = .ok "struct S\x7bprivate:\nint a;\nint b;\x7d" := by
    cases there
    rfl
  exact ⟨a, c, later, here, there, kept, isStruct, whole, labeled, read (List.forall_mem_singleton.mpr plain)⟩

end CSource
