import CSource.Proofs.Course.Calls

/-!
The course of the calls that a world allows. What stocking an arena keeps, and what the one act of a call keeps,
holds of every arena that can be reached. Under the strict policy no call is refused for the shape of a handle.
-/

namespace CSource

namespace Course

variable {trust : Prop} {a b : Arena} {last : Arena → Arena → Prop} {α : Type} {m : Build α} {post : α → Prop}

theorem succeeded (course : Course trust a last m post) {x : α} (ran : m.run a = .ok x b) :
    (∃ mid, Stocks a mid ∧ last mid b) ∧ post x := by
  have done := course a .refl
  rw [ran] at done
  exact done

theorem refused (course : Course trust a last m post) {cause : Misuse} (ran : m.run a = .error cause b) :
    Leaves a b ∧ (trust → cause.isMistyped = false) := by
  have done := course a .refl
  rw [ran] at done
  exact done

end Course

section Worlds

variable {p : Policy} {w : World} {n : Nat} {call : Call} {a b : Arena}

theorem Call.plainCourse (call : Call) (a : Arena) :
    Course False a call.Last call.perform fun answer => call.allots a = true → answer.New a :=
  call.course nofun nofun

theorem World.Reachable.typedCourse (reachable : w.Reachable .strict) (allowed : w.Allows .strict n call)
    (here : w.session.arenas[n]? = some a) :
    Course True a call.Last call.perform fun answer => call.allots a = true → answer.New a := by
  have trusted := reachable.sound.trusted allowed here
  have issued := reachable.sound.issued allowed
  refine call.course (fun _ => reachable.closed n a here) fun _ s mem => ?_
  have own := trusted.own rfl s (issued s mem)
  exact (trusted.keeps s (issued s mem) own).has own

theorem Call.fills {scope : ScopeRef} (filled : call.filled? = some scope) {answer : Answer}
    (ran : call.perform.run a = .ok answer b) : ∃ mid, Stocks a mid ∧ Fills scope mid b := by
  obtain ⟨⟨mid, stocks, last⟩, _⟩ := (call.plainCourse a).succeeded ran
  unfold Call.Last at last
  rw [filled] at last
  exact ⟨mid, stocks, last⟩

theorem Call.filledOwn {scope : ScopeRef} (filled : call.filled? = some scope) {answer : Answer}
    (ran : call.perform.run a = .ok answer b) : scope.arena = a.number := by
  obtain ⟨mid, stocks, top, marked, m, e, found, _⟩ := call.fills filled ran
  refine (nodeOwn found).trans (Eq.trans ?_ stocks.number)
  rcases marked with rfl | ⟨h, f, _, rfl⟩
  · rfl
  · exact Arena.numberReplace ..

variable {I : Arena → Prop}

theorem Ends.coursed (stock : ∀ {a b}, Stocks a b → I a → I b) (act : ∀ {a b}, Acts a b → I a → I b)
    (mark : ∀ {a b}, Defines a b → I a → I b) (put : ∀ {scope a b}, Puts scope a b → I a → I b)
    {result : Except Misuse Answer} (ends : Ends call.perform a result b) (holds : I a) : I b := by
  have marks {a b : Arena} (marked : b = a ∨ Defines a b) (holds : I a) : I b := by
    rcases marked with rfl | defines
    · exact holds
    · exact mark defines holds
  have course := call.plainCourse a
  cases result with
  | error cause =>
    obtain ⟨mid, stocks, marked⟩ := (course.refused ends).1
    exact marks marked (stock stocks holds)
  | ok answer =>
    obtain ⟨⟨mid, stocks, last⟩, _⟩ := course.succeeded ends
    have stocked := stock stocks holds
    unfold Call.Last at last
    cases filled : call.filled? with
    | none =>
      rw [filled] at last
      exact act last stocked
    | some scope =>
      rw [filled] at last
      obtain ⟨top, marked, placed⟩ := last
      exact put placed (marks marked stocked)

theorem World.Reachable.inductCourse (new : ∀ n d, I (Arena.new n d)) (stock : ∀ {a b}, Stocks a b → I a → I b)
    (act : ∀ {a b}, Acts a b → I a → I b) (mark : ∀ {a b}, Defines a b → I a → I b)
    (put : ∀ {scope a b}, Puts scope a b → I a → I b) (reachable : w.Reachable p) :
    ∀ (n : Nat) (a : Arena), w.session.arenas[n]? = some a → I a :=
  reachable.inductCalls new fun _ _ _ ends => ends.coursed stock act mark put

end Worlds

end CSource
