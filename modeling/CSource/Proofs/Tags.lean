import CSource.Proofs.Course
import CSource.Proofs.Dialects
import CSource.Proofs.Interning
import CSource.Proofs.Writing

/-!
The forms of a tag. A struct, union, class or enum is written in three ways: as a forward declaration, as a definition
and as a name that refers to it. All three are written from the one record of the tag, so they agree at any time,
whatever was set before or after the forward declaration was made.
-/

namespace CSource

open Pieces Render

def Aggregate.words (data : Aggregate) : String := data.kind.keyword ++ " " ++ data.name.text

def Enumeration.keyText (data : Enumeration) : String :=
  match data.key with
  | some key => key.keyword ++ " "
  | none => ""

def Enumeration.words (data : Enumeration) : String := "enum " ++ data.keyText ++ data.name.text

def Arena.Rendered {c : Category} (a : Arena) (h : Handle c) (text : String) : Prop := a.render h.ref = .ok text

def Arena.LedText {c : Category} (a : Arena) (lead : String) (part : Option (Handle c)) (text : String) : Prop :=
  match part with
  | some h => ∃ written, a.Rendered h written ∧ text = lead ++ written
  | none => text = ""

def Base.Text (a : Arena) (base : Base) (text : String) : Prop :=
  ∃ written, a.Rendered base.ty written ∧ text = base.access.keyword ++ " " ++ written

def baseListText (texts : List String) : String :=
  if texts.isEmpty then "" else " : " ++ ",".intercalate texts

def labelText : Option Access → String
  | some access => access.keyword ++ ":\n"
  | none => ""

def Region.Text (a : Arena) (r : Region) (text : String) : Prop :=
  ∃ written, a.Rendered r.scope written ∧ text = labelText r.access ++ written

def EnumMember.Text (a : Arena) (m : EnumMember) (text : String) : Prop :=
  ∃ value, a.LedText "=" m.value value ∧ text = m.name ++ value ++ ","

def Aggregate.TailText (data : Aggregate) (a : Arena) (text : String) : Prop :=
  ∃ bases regions, List.Forall₂ (Base.Text a) data.bases bases ∧ List.Forall₂ (Region.Text a) data.regions regions ∧
    text = (if data.isFinal then " final" else "") ++ baseListText bases ++ "\x7b" ++ String.join regions ++ "\x7d"

def Enumeration.TailText (data : Enumeration) (a : Arena) (text : String) : Prop :=
  ∃ members, List.Forall₂ (EnumMember.Text a) data.members members ∧ text = "\x7b" ++ String.join members ++ "\x7d"

section Spelling

variable {a : Arena} {text : String}

theorem spellsTagged {keyword : String} {name : QualName} :
    a.Spells (taggedName keyword (.ok name)) text ↔ text = keyword ++ " " ++ name.text := by
  simp [taggedName, ofName, Arena.spellsCode, Arena.spellsOfText, String.append_assoc]

theorem spellsLed {c : Category} {lead : String} {part : Option (Handle c)} :
    a.Spells (ofOption (fun h => .code lead :: ofHandle h) part) text ↔ a.LedText lead part text := by
  cases part with
  | none => exact Arena.spellsNil
  | some h => simp [ofOption, Arena.LedText, Arena.Rendered, Arena.spellsCode, Arena.spellsOfHandle]

theorem spellsEnumHead {data : Enumeration} :
    a.Spells (enumHead data) text ↔ ∃ type, a.LedText ":" data.underlying type ∧ text = data.words ++ type := by
  have key (head : String) :
      a.Spells (ofOption (fun key => [.code key.keyword, .code " "]) data.key) head ↔ head = data.keyText := by
    unfold Enumeration.keyText
    cases data.key <;> simp [ofOption, Arena.spellsCode, Arena.spellsNil]
  simp [enumHead, Arena.spellsCode, Arena.spellsAppend, Arena.spellsOfText, spellsLed, key, Enumeration.words,
    String.append_assoc]

theorem spellsBase {base : Base} :
    a.Spells (.code base.access.keyword :: .code " " :: ofHandle base.ty) text ↔ base.Text a text := by
  simp [Base.Text, Arena.Rendered, Arena.spellsCode, Arena.spellsOfHandle, String.append_assoc]

theorem spellsBaseList {bases : List Base} :
    a.Spells (baseList bases) text ↔
      ∃ texts, List.Forall₂ (Base.Text a) bases texts ∧ text = baseListText texts := by
  cases bases with
  | nil => simp [baseList, Arena.spellsNil, baseListText]
  | cons base bases =>
    have each (texts : List String) : List.Forall₂ (fun base t =>
        a.Spells (.code base.access.keyword :: .code " " :: ofHandle base.ty) t) (base :: bases) texts ↔
        List.Forall₂ (Base.Text a) (base :: bases) texts := by
      simp only [spellsBase]
    dsimp only [baseList]
    rw [Arena.spellsCode]
    simp only [Arena.spellsSeparated, List.forall₂_map_left_iff, each]
    constructor
    · rintro ⟨_, ⟨texts, written, rfl⟩, rfl⟩
      refine ⟨texts, written, ?_⟩
      cases written
      rfl
    · rintro ⟨texts, written, rfl⟩
      refine ⟨_, ⟨texts, written, rfl⟩, ?_⟩
      cases written
      rfl

theorem spellsRegion {r : Region} : a.Spells (region r) text ↔ r.Text a text := by
  unfold region Region.Text labelText
  cases r.access <;>
    simp [ofOption, Arena.Rendered, Arena.spellsCode, Arena.spellsOfHandle, String.append_assoc]

theorem spellsEnumMember {m : EnumMember} : a.Spells (enumMember m) text ↔ m.Text a text := by
  simp [enumMember, EnumMember.Text, Arena.spellsCode, Arena.spellsAppend, Arena.spellsOfText, spellsLed,
    String.append_assoc]

theorem spellsAggregate {data : Aggregate} :
    a.Spells (aggregate data) text ↔ ∃ tail, data.TailText a tail ∧ text = data.words ++ tail := by
  have final (tail : String) :
      a.Spells (flagged [(data.isFinal, " final")]) tail ↔ tail = if data.isFinal then " final" else "" := by
    rw [Arena.spellsFlagged]
    cases data.isFinal <;> simp
  simp only [aggregate, aggregateHead, Arena.spellsAppend, Arena.spellsInBraces, spellsTagged, final, spellsBaseList,
    Arena.spellsJoined (fun _ _ => spellsRegion), Aggregate.TailText, Aggregate.words]
  constructor
  · rintro ⟨_, _, ⟨_, _, ⟨_, _, rfl, rfl, rfl⟩, ⟨bases, based, rfl⟩, rfl⟩, ⟨_, ⟨regions, each, rfl⟩, rfl⟩, rfl⟩
    exact ⟨_, ⟨bases, regions, based, each, rfl⟩, by simp [String.append_assoc]⟩
  · rintro ⟨_, ⟨bases, regions, based, each, rfl⟩, rfl⟩
    exact ⟨_, _, ⟨_, _, ⟨_, _, rfl, rfl, rfl⟩, ⟨bases, based, rfl⟩, rfl⟩, ⟨_, ⟨regions, each, rfl⟩, rfl⟩,
      by simp [String.append_assoc]⟩

theorem spellsEnumeration {data : Enumeration} :
    a.Spells (enumeration data) text ↔
      ∃ head tail, a.Spells (enumHead data) head ∧ data.TailText a tail ∧ text = head ++ tail := by
  simp only [enumeration, Arena.spellsAppend, Arena.spellsInBraces, Arena.spellsJoined (fun _ _ => spellsEnumMember),
    Enumeration.TailText]
  constructor
  · rintro ⟨head, _, first, ⟨_, ⟨members, each, rfl⟩, rfl⟩, rfl⟩
    exact ⟨head, _, first, ⟨members, each, rfl⟩, rfl⟩
  · rintro ⟨head, _, first, ⟨members, each, rfl⟩, rfl⟩
    exact ⟨head, _, first, ⟨_, ⟨members, each, rfl⟩, rfl⟩, rfl⟩

end Spelling

section Declared

variable {a : Arena} {ty : TypeRef} {d : DeclRef} {text : String}

theorem commentsOfBare (bare : a.comments = []) (r : NodeRef) : a.commentsOf r = none := by
  simp [Arena.commentsOf, bare]

theorem forwardText {head : Pieces} (bare : a.comments = []) (named : tagReference a ty = head)
    (here : a.node d = .ok (.aggregate ty true) ∨ a.node d = .ok (.enumeration ty true)) :
    a.render d.ref = .ok text ↔ a.Spells head text := by
  subst named
  rcases here with here | here <;> exact Arena.renderedBare here nofun (commentsOfBare bare _)

theorem definitionText {n : TypeNode} (bare : a.comments = []) (tag : a.node ty = .ok n)
    (here : a.node d = .ok (.aggregate ty false) ∨ a.node d = .ok (.enumeration ty false)) :
    a.render d.ref = .ok text ↔ a.Spells (Render.type a n) text := by
  have shown : a.render ty.ref = .ok text ↔ a.Spells (Render.type a n) text :=
    Arena.renderedBare tag nofun (commentsOfBare bare _)
  have declared : a.render d.ref = .ok text ↔ a.Spells (ofHandle ty) text := by
    rcases here with here | here <;> exact Arena.renderedBare here nofun (commentsOfBare bare _)
  rw [declared, Arena.spellsOfHandle, shown]

end Declared

def Arena.NamedAs (a : Arena) (d : DeclRef) (text : String) : Prop :=
  ∃ named b, (Call.type (.named d)).perform.run a = .ok (.type named) b ∧ b.render named.ref = .ok text

section Named

variable {a b : Arena} {ty : TypeRef} {d : DeclRef} {text : String}

theorem requestStocks {t : Table} {key : t.Key} (ran : (t.request key).run a = .ok ty b) :
    Stocks a b ∧ b.comments = a.comments ∧ b.dialect = a.dialect := by
  rw [Table.runRequest] at ran
  cases found : (t.entries a).lookup key with
  | some other =>
    rw [found] at ran
    cases ran
    exact ⟨.refl, rfl, rfl⟩
  | none =>
    rw [found] at ran
    cases ran
    exact ⟨.shared .refl t key, rfl, rfl⟩

theorem requestMade (t : Table) (key : t.Key) (a : Arena) : ∃ ty b, (t.request key).run a = .ok ty b := by
  rw [Table.runRequest]
  cases (t.entries a).lookup key <;> exact ⟨_, _, rfl⟩

theorem requestNode {t : Table} {key : t.Key} (consed : a.Consed) (admits : t.Admits key a)
    (ran : (t.request key).run a = .ok ty b) : b.node ty = .ok (t.interning.node key) := by
  have listed := (Table.requestRecords admits ran).1
  rw [(Table.requestKeeps consed ran).1.listed t] at listed
  exact Arena.nodeIff.mpr (Table.memShared.mp listed)

theorem namedAdmits (own : d.arena = a.number) : Table.named.Admits d a :=
  ⟨List.forall_mem_singleton.mpr own, nofun⟩

theorem namedAs {n : DeclNode} (consed : a.Consed) (bare : a.comments = []) (here : a.node d = .ok n)
    (shown : ∀ b, b.node d = .ok n → Stocks a b → b.dialect = a.dialect → b.Spells (Render.namedType b d) text) :
    a.NamedAs d text := by
  have admits := namedAdmits (Arena.nodeIff.mp here).1
  obtain ⟨named, b, ran⟩ := requestMade Table.named d a
  obtain ⟨stocks, comments, dialect⟩ := requestStocks ran
  refine ⟨named, b, Table.callAdmitted admits ran, ?_⟩
  have made := requestNode consed admits ran
  exact (Arena.renderedBare made nofun (commentsOfBare (comments.trans bare) _)).mpr
    (shown b (stocks.keepsNode here) stocks dialect)

end Named

structure AggregateForms (a : Arena) (ty : TypeRef) (data : Aggregate) : Prop where
  forward : ∀ f : DeclRef, a.node f = .ok (.aggregate ty true) → a.render f.ref = .ok data.words
  full : ∀ f d : DeclRef, a.node f = .ok (.aggregate ty true) → a.node d = .ok (.aggregate ty false) → ∀ text,
    a.render d.ref = .ok text ↔ ∃ head tail, a.render f.ref = .ok head ∧ data.TailText a tail ∧ text = head ++ tail
  named : ∀ (d : DeclRef) (forward : Bool), a.node d = .ok (.aggregate ty forward) →
    a.NamedAs d (if a.dialect.isCxx then data.name.text else data.words)

structure EnumForms (a : Arena) (ty : TypeRef) (data : Enumeration) : Prop where
  forward : ∀ f : DeclRef, a.node f = .ok (.enumeration ty true) → ∀ text,
    a.render f.ref = .ok text ↔ ∃ type, a.LedText ":" data.underlying type ∧ text = data.words ++ type
  full : ∀ f d : DeclRef, a.node f = .ok (.enumeration ty true) → a.node d = .ok (.enumeration ty false) → ∀ text,
    a.render d.ref = .ok text ↔ ∃ head tail, a.render f.ref = .ok head ∧ data.TailText a tail ∧ text = head ++ tail
  named : ∀ (d : DeclRef) (forward : Bool), a.node d = .ok (.enumeration ty forward) →
    a.NamedAs d (if a.dialect.isCxx then data.name.text else data.words)
  plain : a.dialect.isCxx = false → data.words = "enum " ++ data.name.text

section Forms

variable {a : Arena} {ty : TypeRef}

theorem aggregateForms (consed : a.Consed) (bare : a.comments = []) {data : Aggregate}
    (tag : a.node ty = .ok (.aggregate data)) : AggregateForms a ty data := by
  have forward (f : DeclRef) (here : a.node f = .ok (.aggregate ty true)) : a.render f.ref = .ok data.words := by
    have head : tagReference a ty = aggregateHead data := by
      rw [tagReference, tag]
      rfl
    exact (forwardText bare head (.inl here)).mpr (spellsTagged.mpr rfl)
  refine ⟨forward, fun f d ahead full text => ?_, fun d made here => ?_⟩
  · rw [definitionText bare tag (.inl full), forward f ahead]
    constructor
    · intro spelled
      obtain ⟨tail, behind, rfl⟩ := spellsAggregate.mp spelled
      exact ⟨_, tail, rfl, behind, rfl⟩
    · rintro ⟨_, tail, ⟨⟩, behind, rfl⟩
      exact spellsAggregate.mpr ⟨tail, behind, rfl⟩
  · refine namedAs consed bare here fun b declared stocks dialect => ?_
    have there := stocks.keepsNode tag
    simp only [namedType, declared, there, Arena.aggregateAt, Arena.tagName, Arena.declName, Arena.declNameWithin, bind,
      Except.bind, pure, Except.pure, Pieces.ofExcept, dialect]
    cases a.dialect.isCxx with
    | true => exact Arena.spellsOfText.mpr rfl
    | false => exact spellsTagged.mpr rfl

theorem enumForms (consed : a.Consed) (bare : a.comments = []) {data : Enumeration}
    (tag : a.node ty = .ok (.enumeration data)) (plain : a.dialect.isCxx = false → data.key = none) :
    EnumForms a ty data := by
  have head : tagReference a ty = enumHead data := by
    rw [tagReference, tag]
    rfl
  have words (isC : a.dialect.isCxx = false) : data.words = "enum " ++ data.name.text := by
    simp [Enumeration.words, Enumeration.keyText, plain isC]
  refine ⟨fun f here text => ?_, fun f d ahead full text => ?_, fun d made here => ?_, words⟩
  · rw [forwardText bare head (.inr here), spellsEnumHead]
  · rw [definitionText bare tag (.inr full), Render.type, spellsEnumeration]
    simp only [forwardText bare head (.inr ahead)]
  · refine namedAs consed bare here fun b declared stocks dialect => ?_
    have there := stocks.keepsNode tag
    simp only [namedType, declared, there, Arena.tagName, Arena.declName, Arena.declNameWithin, bind, Except.bind, pure,
      Except.pure, Pieces.ofExcept, dialect]
    cases isCxx : a.dialect.isCxx with
    | true => exact Arena.spellsOfText.mpr rfl
    | false =>
      rw [words isCxx]
      exact spellsTagged.mpr (by simp)

end Forms

/-- In every arena that can be reached and has no comments, each tag has one form in all the places that show it. -/
theorem tagFormsAgree {p : Policy} {w : World} (reachable : w.Reachable p) {n : Nat} {a : Arena}
    (here : w.session.arenas[n]? = some a) (bare : a.comments = []) (ty : TypeRef) :
    (∀ data, a.node ty = .ok (.aggregate data) → AggregateForms a ty data) ∧
      ∀ data, a.node ty = .ok (.enumeration data) → EnumForms a ty data := by
  have consed := reachable.consed n a here
  refine ⟨fun data tag => aggregateForms consed bare tag, fun data tag => enumForms consed bare tag fun isC => ?_⟩
  have spoken := Node.spoken.reachable reachable here .type ty.index _ (Arena.nodeIff.mp tag).2
  cases keyed : data.key with
  | none => rfl
  | some key =>
    obtain ⟨f, mem, isCxx⟩ := TypeNode.cxxFeature (n := .enumeration data) (by simp [TypeNode.cxxOnly, keyed])
    rw [spoken f mem, isCxx] at isC
    contradiction

/-- A struct, and an enum that gets its members and its underlying type after it has been declared forward. -/
def World.forwarded : World :=
  (((((((empty.grow .c).act 0 (.type (.newAggregate .structKind (.ofString "S")))).act 0
    (.type (.forwardClass ⟨⟨0, 1⟩, ⟨0, 0⟩⟩))).act 0 (.type (.newEnum (.ofString "E") none))).act 0
    (.type (.forwardEnum ⟨⟨0, 2⟩, ⟨0, 2⟩⟩))).act 0 (.type (.addEnumMember ⟨⟨0, 2⟩, ⟨0, 2⟩⟩ "A" none))).act 0
    (.type (.raw "int"))).act 0 (.type (.setUnderlying ⟨⟨0, 2⟩, ⟨0, 2⟩⟩ ⟨0, 3⟩))

theorem World.forwardedReachable : forwarded.Reachable .strict := by
  refine .act (.act (.act (.act (.act (.act (.act (Reachable.start.grow .c) ?_) ?_) ?_) ?_) ?_) ?_) ?_
  all_goals exact allowsHeld (by decide) rfl (by decide)

theorem structAndEnumAgree :
    ∃ a, World.forwarded.session.arenas[0]? = some a ∧ a.comments = [] ∧
      AggregateForms a ⟨0, 1⟩ ⟨.structKind, .ofString "S", false, [], []⟩ ∧
      EnumForms a ⟨0, 2⟩ ⟨.ofString "E", none, some ⟨0, 3⟩, [⟨"A", none⟩]⟩ ∧
      a.render (⟨0, 0⟩ : DeclRef).ref = .ok "struct S\x7b\x7d" ∧ a.render (⟨0, 1⟩ : DeclRef).ref = .ok "struct S" ∧
      a.render (⟨0, 2⟩ : DeclRef).ref = .ok "enum E:int\x7bA,\x7d" ∧
      a.render (⟨0, 3⟩ : DeclRef).ref = .ok "enum E:int" := by
  obtain ⟨a, here⟩ : ∃ a, World.forwarded.session.arenas[0]? = some a := ⟨_, rfl⟩
  obtain ⟨bare, isStruct, isEnum, texts⟩ : a.comments = [] ∧
      a.node (⟨0, 1⟩ : TypeRef) = .ok (.aggregate ⟨.structKind, .ofString "S", false, [], []⟩) ∧
      a.node (⟨0, 2⟩ : TypeRef) = .ok (.enumeration ⟨.ofString "E", none, some ⟨0, 3⟩, [⟨"A", none⟩]⟩) ∧
      a.render (⟨0, 0⟩ : DeclRef).ref = .ok "struct S\x7b\x7d" ∧ a.render (⟨0, 1⟩ : DeclRef).ref = .ok "struct S" ∧
      a.render (⟨0, 2⟩ : DeclRef).ref = .ok "enum E:int\x7bA,\x7d" ∧
      a.render (⟨0, 3⟩ : DeclRef).ref = .ok "enum E:int" := by
    cases here
    exact ⟨rfl, rfl, rfl, rfl, rfl, rfl, rfl⟩
  exact ⟨a, here, bare, (tagFormsAgree World.forwardedReachable here bare _).1 _ isStruct,
    (tagFormsAgree World.forwardedReachable here bare _).2 _ isEnum, texts⟩

end CSource
