import CSource.Proofs.Emission
import Mathlib.Data.List.Perm.Subperm

/-!
When a node has a text. A node is written down to the depth of its longest chain of parts. In a closed arena a chain
that is longer than the arena has nodes comes back to one of its nodes, so a node can be written unless a node that
it reaches is part of itself.
-/

namespace CSource

open Relation

namespace Arena

def Emits (a : Arena) (r k : NodeRef) : Prop := k ∈ a.parts r

/-- No node that is written below the node is part of itself. -/
def Acyclic (a : Arena) (r : NodeRef) : Prop := ¬∃ k, ReflTransGen a.Emits r k ∧ TransGen a.Emits k k

inductive Descends (a : Arena) : Nat → NodeRef → Prop where
  | here (r : NodeRef) : Descends a 0 r
  | down {depth : Nat} {r k : NodeRef} (emits : a.Emits r k) (rest : Descends a depth k) : Descends a (depth + 1) r

def allRefs (a : Arena) : List NodeRef :=
  [Category.type, .decl, .expr, .stmt, .directive, .scope].flatMap fun c =>
    (List.range (a.nodes c).size).map (⟨c, a.number, ·⟩)

variable {a : Arena} {r k : NodeRef}

theorem allRefsLength : a.allRefs.length = a.stats.total := by
  simp [allRefs, Arena.nodes, stats, Stats.total]
  omega

theorem Present.listed (present : a.Present r) : r ∈ a.allRefs := by
  obtain ⟨c, arena, index⟩ := r
  obtain ⟨own, inside⟩ := present
  refine List.mem_flatMap.mpr ⟨c, by cases c <;> decide, ?_⟩
  exact List.mem_map.mpr ⟨index, List.mem_range.mpr inside, by rw [← own]⟩

theorem Acyclic.below (acyclic : a.Acyclic r) (emits : a.Emits r k) : a.Acyclic k := by
  rintro ⟨l, below, cycle⟩
  exact acyclic ⟨l, .head emits below, cycle⟩

theorem Closed.reachesPresent (closed : a.Closed) (present : a.Present r) (reaches : ReflTransGen a.Emits r k) :
    a.Present k := by
  induction reaches with
  | refl => exact present
  | tail before emits ih => exact closed.partsPresent ih _ emits

theorem Acyclic.chain (acyclic : a.Acyclic r) {depth : Nat} (descends : a.Descends depth r) :
    ∃ chain : List NodeRef, chain.length = depth + 1 ∧ chain.Nodup ∧ ∀ k ∈ chain, ReflTransGen a.Emits r k := by
  induction descends with
  | here r => exact ⟨[r], rfl, by simp, List.forall_mem_singleton.mpr .refl⟩
  | @down depth r k emits rest ih =>
    obtain ⟨chain, length, distinct, reached⟩ := ih (acyclic.below emits)
    -- a second occurrence would be a way from the node back to itself
    refine ⟨r :: chain, by simp [length], List.nodup_cons.mpr ⟨?_, distinct⟩, ?_⟩
    · intro again
      exact acyclic ⟨r, .refl, .head' emits (reached r again)⟩
    · exact List.forall_mem_cons.mpr ⟨.refl, fun l mem => .head emits (reached l mem)⟩

theorem Closed.bounded (closed : a.Closed) (present : a.Present r) (acyclic : a.Acyclic r) {depth : Nat}
    (descends : a.Descends depth r) : depth < a.stats.total := by
  obtain ⟨chain, length, distinct, reached⟩ := acyclic.chain descends
  have listed : chain ⊆ a.allRefs := fun k mem => (closed.reachesPresent present (reached k mem)).listed
  have fits := (distinct.subperm listed).length_le
  rw [allRefsLength, length] at fits
  omega

theorem descendsCycle (cycle : TransGen a.Emits r r) (depth : Nat) : a.Descends depth r := by
  induction depth generalizing r with
  | zero => exact .here r
  | succ depth ih =>
    obtain ⟨k, emits, back⟩ := TransGen.head'_iff.mp cycle
    exact .down emits (ih (.tail' back emits))

theorem descendsCyclic (cyclic : ¬a.Acyclic r) (depth : Nat) : a.Descends depth r := by
  obtain ⟨k, reaches, cycle⟩ := not_not.mp cyclic
  clear cyclic
  induction reaches using ReflTransGen.head_induction_on generalizing depth with
  | refl => exact descendsCycle cycle depth
  | head emits below ih =>
    cases depth with
    | zero => exact .here _
    | succ depth => exact .down emits (ih depth)

end Arena

namespace Render

variable {child other : NodeRef → Except Misuse (List Segment)} {ps : Pieces}

theorem assembleOk (faultless : ∀ cause, .error cause ∉ ps.steps)
    (written : ∀ r, .ok r ∈ ps.steps → ∃ segments, child r = .ok segments) :
    ∃ segments, assemble child ps = .ok segments := by
  induction ps with
  | nil => exact ⟨[], rfl⟩
  | cons p ps ih =>
    cases p with
    | code text =>
      obtain ⟨tail, done⟩ := ih faultless written
      exact ⟨.code text :: tail, by rw [assemble, done]; rfl⟩
    | child r =>
      obtain ⟨head, first⟩ := written r (List.mem_cons_self ..)
      obtain ⟨tail, done⟩ := ih (fun cause mem => faultless cause (List.mem_cons_of_mem _ mem))
        fun k mem => written k (List.mem_cons_of_mem _ mem)
      exact ⟨head ++ tail, by rw [assemble, first, done]; rfl⟩
    | fault cause => exact absurd (List.mem_cons_self ..) (faultless cause)

theorem assembleEndless (faultless : ∀ cause, .error cause ∉ ps.steps)
    (written : ∀ r, .ok r ∈ ps.steps → (∃ segments, child r = .ok segments) ∨ child r = .error .endless)
    (deep : ∃ r, .ok r ∈ ps.steps ∧ child r = .error .endless) : assemble child ps = .error .endless := by
  induction ps with
  | nil =>
    obtain ⟨r, mem, _⟩ := deep
    contradiction
  | cons p ps ih =>
    cases p with
    | code text =>
      rw [assemble, ih faultless written deep]
      rfl
    | child r =>
      rcases written r (List.mem_cons_self ..) with ⟨head, first⟩ | first
      · have later : ∃ k, .ok k ∈ Pieces.steps ps ∧ child k = .error .endless := by
          obtain ⟨k, mem, stuck⟩ := deep
          rcases List.mem_cons.mp mem with same | mem
          · cases same
            rw [first] at stuck
            contradiction
          · exact ⟨k, mem, stuck⟩
        rw [assemble, first]
        have rest := ih (fun cause mem => faultless cause (List.mem_cons_of_mem _ mem))
          (fun k mem => written k (List.mem_cons_of_mem _ mem)) later
        rw [rest]
        rfl
      · rw [assemble, first]
        rfl
    | fault cause => exact absurd (List.mem_cons_self ..) (faultless cause)

theorem assembleSame (same : ∀ r segments, child r = .ok segments → other r = .ok segments) {segments : List Segment}
    (done : assemble child ps = .ok segments) : assemble other ps = .ok segments := by
  induction ps generalizing segments with
  | nil => exact done
  | cons p ps ih =>
    cases p with
    | code text =>
      cases rest : assemble child ps with
      | error cause => simp [assemble, rest, bind, Except.bind] at done
      | ok tail =>
        rw [assemble, rest] at done
        rw [assemble, ih rest]
        exact done
    | child r =>
      cases first : child r with
      | error cause => simp [assemble, first, bind, Except.bind] at done
      | ok head =>
        cases rest : assemble child ps with
        | error cause => simp [assemble, first, rest, bind, Except.bind] at done
        | ok tail =>
          rw [assemble, first, rest] at done
          rw [assemble, same r head first, ih rest]
          exact done
    | fault cause => contradiction

theorem segmentsDeeper {a : Arena} {depth : Nat} {r : NodeRef} {segments : List Segment}
    (done : segmentsWithin a depth r = .ok segments) : segmentsWithin a (depth + 1) r = .ok segments := by
  induction depth generalizing r segments with
  | zero => contradiction
  | succ depth ih =>
    cases body : assemble (segmentsWithin a depth) (pieces a r) with
    | error cause => simp [segmentsWithin, body, bind, Except.bind] at done
    | ok written =>
      rw [segmentsWithin, body] at done
      rw [segmentsWithin, assembleSame (fun k _ => ih) body]
      exact done

end Render

namespace Arena

variable {a : Arena} {r : NodeRef}

theorem Closed.written (closed : a.Closed) (present : a.Present r) (depth : Nat) :
    (¬a.Descends depth r → ∃ segments, Render.segmentsWithin a depth r = .ok segments) ∧
      (a.Descends depth r → Render.segmentsWithin a depth r = .error .endless) := by
  induction depth generalizing r with
  | zero => exact ⟨fun shallow => absurd (.here r) shallow, fun _ => rfl⟩
  | succ depth ih =>
    have steps := closed.steps present
    have faultless : ∀ cause, .error cause ∉ Pieces.steps (Render.pieces a r) := by simp [steps]
    have below {k : NodeRef} (mem : .ok k ∈ Pieces.steps (Render.pieces a r)) : a.Emits r k ∧ a.Present k := by
      have emits : k ∈ a.parts r := by simpa [steps] using mem
      exact ⟨emits, closed.partsPresent present k emits⟩
    constructor
    · intro shallow
      have each : ∀ k, .ok k ∈ Pieces.steps (Render.pieces a r) →
          ∃ segments, Render.segmentsWithin a depth k = .ok segments :=
        fun k mem => (ih (below mem).2).1 fun deep => shallow (.down (below mem).1 deep)
      obtain ⟨body, done⟩ := Render.assembleOk faultless each
      rw [Render.segmentsWithin, done]
      exact ⟨_, rfl⟩
    · rintro (_ | @⟨_, _, k, emits, deep⟩)
      have each : ∀ k, .ok k ∈ Pieces.steps (Render.pieces a r) →
          (∃ segments, Render.segmentsWithin a depth k = .ok segments) ∨
            Render.segmentsWithin a depth k = .error .endless := by
        intro k mem
        by_cases further : a.Descends depth k
        · exact .inr ((ih (below mem).2).2 further)
        · exact .inl ((ih (below mem).2).1 further)
      have listed : .ok k ∈ Pieces.steps (Render.pieces a r) := by
        rw [steps]
        exact List.mem_map_of_mem emits
      have stuck := Render.assembleEndless faultless each ⟨_, listed, (ih (below listed).2).2 deep⟩
      rw [Render.segmentsWithin, stuck]
      rfl

end Arena

/-- In every arena that can be reached with its own handles, a node or scope has a text exactly if no node that it
reaches is part of itself. Its depth is then at most the number of nodes. Otherwise no depth is enough. -/
theorem renderedIffAcyclic {w : World} {n : Nat} {a : Arena} {r : NodeRef} (reachable : w.Reachable .strict)
    (here : w.session.arenas[n]? = some a) (present : a.Present r) :
    ((∃ text, a.render r = .ok text) ↔ a.Acyclic r) ∧
      (a.Acyclic r → ∃ segments, ∀ depth, a.stats.total ≤ depth →
        Render.segmentsWithin a depth r = .ok segments) ∧
      (¬a.Acyclic r → ∀ depth, Render.segmentsWithin a depth r = .error .endless) := by
  have closed := reachable.closed n a here
  have finite (acyclic : a.Acyclic r) : ∃ segments, ∀ depth, a.stats.total ≤ depth →
      Render.segmentsWithin a depth r = .ok segments := by
    have shallow : ¬a.Descends a.stats.total r := fun deep => absurd (closed.bounded present acyclic deep) (by omega)
    obtain ⟨segments, done⟩ := (closed.written present _).1 shallow
    refine ⟨segments, fun depth enough => ?_⟩
    induction enough with
    | refl => exact done
    | step _ ih => exact Render.segmentsDeeper ih
  have endless (cyclic : ¬a.Acyclic r) (depth : Nat) : Render.segmentsWithin a depth r = .error .endless :=
    (closed.written present depth).2 (Arena.descendsCyclic cyclic depth)
  refine ⟨⟨fun rendered => ?_, fun acyclic => ?_⟩, finite, endless⟩
  · by_contra cyclic
    obtain ⟨text, rendered⟩ := rendered
    rw [Arena.render, Arena.segments, endless cyclic] at rendered
    contradiction
  · obtain ⟨segments, done⟩ := finite acyclic
    rw [Arena.render, Arena.segments, done a.depthBound (Nat.le_succ _)]
    exact ⟨_, rfl⟩

def World.selfContained : World :=
  (((empty.grow .cxx).act 0 (.type (.newAggregate .structKind (.ofString "S")))).act 0
    (.type (.members ⟨⟨0, 1⟩, ⟨0, 0⟩⟩))).act 0 (.putAny ⟨.member, ⟨0, 0⟩⟩ (.var (.ofString "x") ⟨0, 1⟩ none))

theorem World.selfContainedReachable : selfContained.Reachable .strict := by
  refine .act (.act (.act (Reachable.start.grow .cxx) ?_) ?_) ?_
  all_goals exact allowsHeld (by decide) rfl (by decide)

theorem selfContainedEndless :
    ∃ a, World.selfContained.session.arenas[0]? = some a ∧ a.Present ⟨.type, 0, 1⟩ ∧
      ∀ depth, Render.segmentsWithin a depth ⟨.type, 0, 1⟩ = .error .endless := by
  obtain ⟨a, here⟩ : ∃ a, World.selfContained.session.arenas[0]? = some a := ⟨_, rfl⟩
  have present : a.Present ⟨.type, 0, 1⟩ := by
    cases here
    exact ⟨rfl, by decide⟩
  refine ⟨a, here, present, ?_⟩
  refine (renderedIffAcyclic World.selfContainedReachable here present).2.2 (not_not.mpr ?_)
  refine ⟨⟨.type, 0, 1⟩, .refl, ?_⟩
  have region : ⟨.scope, 0, 0⟩ ∈ a.parts ⟨.type, 0, 1⟩ := by cases here; decide
  have entry : ⟨.stmt, 0, 0⟩ ∈ a.parts ⟨.scope, 0, 0⟩ := by cases here; decide
  have declared : ⟨.decl, 0, 1⟩ ∈ a.parts ⟨.stmt, 0, 0⟩ := by cases here; decide
  have member : ⟨.type, 0, 1⟩ ∈ a.parts ⟨.decl, 0, 1⟩ := by cases here; decide
  exact .head region (.head entry (.head declared (.single member)))

end CSource
