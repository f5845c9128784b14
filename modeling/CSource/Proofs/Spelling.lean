import CSource.Proofs.Rendering
import Mathlib.Data.List.Forall2

/-!
The text of a list of pieces, by rules: code stands for itself and a child for the text that it has on its own. The
text of a node that has no comments is that of its pieces, so each combinator of pieces needs one rule only.
-/

namespace CSource

open Pieces

inductive Arena.Spells (a : Arena) : Pieces → String → Prop where
  | nil : Spells a [] ""
  | code (text : String) {ps : Pieces} {rest : String} (spelled : Spells a ps rest) :
      Spells a (.code text :: ps) (text ++ rest)
  | child {r : NodeRef} {text rest : String} {ps : Pieces} (written : a.render r = .ok text)
      (spelled : Spells a ps rest) : Spells a (.child r :: ps) (text ++ rest)

namespace Arena

variable {a : Arena} {ps qs : Pieces} {text : String}

theorem spellsNil : a.Spells [] text ↔ text = "" := by
  constructor
  · rintro ⟨⟩
    rfl
  · rintro rfl
    exact .nil

theorem spellsCode {s : String} : a.Spells (.code s :: ps) text ↔ ∃ rest, a.Spells ps rest ∧ text = s ++ rest := by
  constructor
  · rintro (_ | ⟨_, spelled⟩)
    exact ⟨_, spelled, rfl⟩
  · rintro ⟨rest, spelled, rfl⟩
    exact .code s spelled

theorem spellsChild {r : NodeRef} :
    a.Spells (.child r :: ps) text ↔ ∃ head rest, a.render r = .ok head ∧ a.Spells ps rest ∧ text = head ++ rest := by
  constructor
  · rintro (_ | _ | ⟨written, spelled⟩)
    exact ⟨_, _, written, spelled, rfl⟩
  · rintro ⟨head, rest, written, spelled, rfl⟩
    exact .child written spelled

theorem spellsAppend :
    a.Spells (ps ++ qs) text ↔ ∃ head tail, a.Spells ps head ∧ a.Spells qs tail ∧ text = head ++ tail := by
  induction ps generalizing text with
  | nil => simp [spellsNil]
  | cons p ps ih =>
    cases p with
    | code s =>
      simp only [List.cons_append, spellsCode, ih]
      constructor
      · rintro ⟨_, ⟨head, tail, first, second, rfl⟩, rfl⟩
        exact ⟨s ++ head, tail, ⟨head, first, rfl⟩, second, by simp [String.append_assoc]⟩
      · rintro ⟨_, tail, ⟨head, first, rfl⟩, second, rfl⟩
        exact ⟨head ++ tail, ⟨head, tail, first, second, rfl⟩, by simp [String.append_assoc]⟩
    | child r =>
      simp only [List.cons_append, spellsChild, ih]
      constructor
      · rintro ⟨u, _, written, ⟨head, tail, first, second, rfl⟩, rfl⟩
        exact ⟨u ++ head, tail, ⟨u, head, written, first, rfl⟩, second, by simp [String.append_assoc]⟩
      · rintro ⟨_, tail, ⟨u, head, written, first, rfl⟩, second, rfl⟩
        exact ⟨u, head ++ tail, written, ⟨head, tail, first, second, rfl⟩, by simp [String.append_assoc]⟩
    | fault cause =>
      constructor
      · nofun
      · rintro ⟨_, _, ⟨⟩, _⟩

theorem Spells.unique {other : String} (first : a.Spells ps text) (second : a.Spells ps other) : text = other := by
  induction first generalizing other with
  | nil => exact (spellsNil.mp second).symm
  | code s spelled ih =>
    obtain ⟨rest, later, rfl⟩ := spellsCode.mp second
    rw [ih later]
  | child written spelled ih =>
    obtain ⟨head, rest, again, later, rfl⟩ := spellsChild.mp second
    cases Except.ok.inj (written.symm.trans again)
    rw [ih later]

theorem spellsOfText {s : String} : a.Spells (ofText s) text ↔ text = s := by
  simp [ofText, spellsCode, spellsNil]

theorem spellsOfHandle {c : Category} {h : Handle c} : a.Spells (ofHandle h) text ↔ a.render h.ref = .ok text := by
  simp [ofHandle, spellsChild, spellsNil]

theorem spellsInParens : a.Spells (inParens ps) text ↔ ∃ inner, a.Spells ps inner ∧ text = "(" ++ inner ++ ")" := by
  simp [inParens, spellsCode, spellsAppend, spellsNil, String.append_assoc]

theorem spellsInBrackets :
    a.Spells (inBrackets ps) text ↔ ∃ inner, a.Spells ps inner ∧ text = "[" ++ inner ++ "]" := by
  simp [inBrackets, spellsCode, spellsAppend, spellsNil, String.append_assoc]

theorem spellsInBraces :
    a.Spells (inBraces ps) text ↔ ∃ inner, a.Spells ps inner ∧ text = "\x7b" ++ inner ++ "\x7d" := by
  simp [inBraces, spellsCode, spellsAppend, spellsNil, String.append_assoc]

theorem spellsFlagged {flags : List (Bool × String)} :
    a.Spells (flagged flags) text ↔ text = String.join ((flags.filter (·.1)).map (·.2)) := by
  unfold flagged
  induction flags.filter (·.1) generalizing text with
  | nil => simp [spellsNil]
  | cons flag flags ih => simp [spellsCode, ih]

theorem spellsSeparated {separator : String} {items : List Pieces} :
    a.Spells (separated separator items) text ↔
      ∃ texts, List.Forall₂ a.Spells items texts ∧ text = separator.intercalate texts := by
  induction items generalizing text with
  | nil => simp [separated, spellsNil]
  | cons item items ih =>
    cases items with
    | nil =>
      simp only [separated, List.forall₂_cons_left_iff, List.forall₂_nil_left_iff]
      constructor
      · exact fun spelled => ⟨[text], ⟨text, [], spelled, rfl, rfl⟩, by simp⟩
      · rintro ⟨_, ⟨head, _, spelled, rfl, rfl⟩, rfl⟩
        simpa using spelled
    | cons next rest =>
      simp only [separated, spellsAppend, spellsCode, ih]
      constructor
      · rintro ⟨head, _, first, ⟨_, ⟨texts, second, rfl⟩, rfl⟩, rfl⟩
        cases second with
        | cons following others =>
          exact ⟨_, .cons first (.cons following others), by simp [String.append_assoc]⟩
      · rintro ⟨_, spelled, rfl⟩
        cases spelled with
        | cons first second =>
          cases second with
          | cons following others =>
            exact ⟨_, _, first, ⟨_, ⟨_, .cons following others, rfl⟩, rfl⟩, by simp [String.append_assoc]⟩

theorem spellsJoined {α : Type} {f : α → Pieces} {P : α → String → Prop}
    (each : ∀ x text, a.Spells (f x) text ↔ P x text) {items : List α} :
    a.Spells (items.flatMap f) text ↔ ∃ texts, List.Forall₂ P items texts ∧ text = String.join texts := by
  induction items generalizing text with
  | nil => simp [spellsNil]
  | cons item items ih =>
    simp only [List.flatMap_cons, spellsAppend, each, ih]
    constructor
    · rintro ⟨head, _, first, ⟨texts, rest, rfl⟩, rfl⟩
      exact ⟨head :: texts, .cons first rest, (String.join_cons ..).symm⟩
    · rintro ⟨_, spelled, rfl⟩
      cases spelled with
      | cons first rest => exact ⟨_, _, first, ⟨_, rest, rfl⟩, String.join_cons ..⟩

theorem spellsWords {separator : String} {words : List String} :
    a.Spells (separated separator (words.map ofText)) text ↔ text = separator.intercalate words := by
  have each (texts : List String) : List.Forall₂ (fun word t => t = word) words texts ↔ texts = words := by
    induction words generalizing texts with
    | nil => simp
    | cons word words ih => simp [List.forall₂_cons_left_iff, ih]
  simp [spellsSeparated, List.forall₂_map_left_iff, spellsOfText, each]

theorem spellsCommaHandles {c : Category} {hs : List (Handle c)} :
    a.Spells (commaHandles hs) text ↔
      ∃ texts, List.Forall₂ (fun h t => a.render h.ref = .ok t) hs texts ∧ text = ",".intercalate texts := by
  simp only [commaHandles, spellsSeparated, List.forall₂_map_left_iff, spellsOfHandle]

theorem spellsAssembled {segments : List Segment} (done : Render.assemble a.segments ps = .ok segments) :
    a.Spells ps (String.join (segments.map (·.text))) := by
  induction ps generalizing segments with
  | nil =>
    cases Except.ok.inj done
    exact .nil
  | cons p ps ih =>
    cases p with
    | code s =>
      cases rest : Render.assemble a.segments ps with
      | error cause => simp [Render.assemble, rest, bind, Except.bind] at done
      | ok tail =>
        rw [Render.assemble, rest] at done
        cases Except.ok.inj done
        rw [List.map_cons, String.join_cons]
        exact .code s (ih rest)
    | child r =>
      cases first : a.segments r with
      | error cause => simp [Render.assemble, first, bind, Except.bind] at done
      | ok head =>
        cases rest : Render.assemble a.segments ps with
        | error cause => simp [Render.assemble, first, rest, bind, Except.bind] at done
        | ok tail =>
          rw [Render.assemble, first, rest] at done
          cases Except.ok.inj done
          have written : a.render r = .ok (String.join (head.map (·.text))) := by
            rw [render, first]
            rfl
          rw [List.map_append, String.join_append]
          exact .child written (ih rest)
    | fault cause => contradiction

theorem spellsRendered {r : NodeRef} (bare : a.commentsOf r = none) (plain : Render.continuesLines a r = false)
    (rendered : a.render r = .ok text) : a.Spells (Render.pieces a r) text := by
  cases done : Render.assemble (Render.segmentsWithin a a.stats.total) (Render.pieces a r) with
  | error cause =>
    simp [render, segments, depthBound, Render.segmentsWithin, done, bind, Except.bind] at rendered
  | ok body =>
    rw [render, segments, depthBound, Render.segmentsWithin, done] at rendered
    simp only [bind, Except.bind, pure, Except.pure, plain, Render.annotate, bare] at rendered
    cases Except.ok.inj rendered
    exact spellsAssembled (Render.assembleSame (fun _ _ => Render.segmentsDeeper) done)

end Arena

end CSource
