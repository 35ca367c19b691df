import NamedData.Proofs.Exchange.Whereabouts

/-!
The interests of several threads.

The threads share a face, and every interest is named after its thread and its number. No two have the
same name, and what answers one of them is no answer to any other (`Plan.matchesName_ofThreads`).
-/
namespace NamedData.Exchange

/-- The component that an interest is named after. -/
def numbering (place : Nat × Nat) : Component :=
  .ofText (toString place.1 ++ "-" ++ toString place.2).toList

/-- The number of a thread and the number of its interest can be told from the text they make. -/
theorem numbering_injective : Function.Injective numbering := by
  rintro ⟨thread, number⟩ ⟨thread', number'⟩ same
  have text := Component.ofText_injective same
  simp only [Nat.toString_eq_repr, String.toList_append, Nat.toList_repr, List.append_assoc] at text
  -- The digits in front of the dash are those of the thread.
  have first (n : Nat) (rest : List Char) :
      (Nat.toDigits 10 n ++ ("-".toList ++ rest)).takeWhile Char.isDigit = Nat.toDigits 10 n := by
    rw [List.takeWhile_append_of_pos fun c member =>
      Nat.isDigit_of_mem_toDigits (by decide) (by decide) member]
    simp
  have threads := congrArg (List.takeWhile Char.isDigit) text
  rw [first, first] at threads
  rw [threads, List.append_cancel_left_eq, List.append_cancel_left_eq] at text
  have inj (n m : Nat) (same : Nat.toDigits 10 n = Nat.toDigits 10 m) : n = m := by
    rw [← Nat.toList_repr, ← Nat.toList_repr] at same
    exact Nat.repr_inj.mp (String.toList_inj.mp same)
  rw [inj _ _ threads, inj _ _ text]

namespace Plan

variable {served root : Name} {threads perThread : Nat} {lifetime : Duration} {cancelled : Bool}

/-- Every thread has as many interests as any other. -/
theorem demands_ofThreads :
    (ofThreads served root threads perThread lifetime cancelled).demands =
      (List.range threads ×ˢ List.range perThread).map fun place =>
        { interest := { name := root.append (numbering place), lifetime := some lifetime }
          cancelled } := by
  change _ = ((List.range threads).product (List.range perThread)).map _
  rw [List.product, List.map_flatMap]
  simp only [List.map_map]
  rfl

/-- The interests of several threads are all waited for, unless they are taken back. -/
theorem awaited_ofThreads :
    (ofThreads served root threads perThread lifetime cancelled).awaited =
      if cancelled then 0 else threads * perThread := by
  have length : (List.range threads ×ˢ List.range perThread).length = threads * perThread := by
    rw [List.length_product, List.length_range, List.length_range]
  rw [awaited, demands_ofThreads, List.countP_map, ← length]
  cases cancelled <;> simp [Function.comp_def]

/-- **The interests of several threads are told apart by their names.** What is named after one of them
answers that one and no other. -/
theorem matchesName_ofThreads {i j : Nat} {first second : Demand}
    (one : (ofThreads served root threads perThread lifetime cancelled).demands[i]? = some first)
    (other : (ofThreads served root threads perThread lifetime cancelled).demands[j]? = some second) :
    first.interest.matchesName second.interest.name = true ↔ i = j := by
  rw [demands_ofThreads, List.getElem?_map, Option.map_eq_some_iff] at one other
  obtain ⟨place, here, rfl⟩ := one
  obtain ⟨place', there, rfl⟩ := other
  have distinct : (List.range threads ×ˢ List.range perThread).Nodup :=
    List.nodup_range.product List.nodup_range
  rw [Interest.matchesName_append rfl rfl rfl, decide_eq_true_eq, numbering_injective.eq_iff]
  constructor
  · rintro rfl
    exact (List.getElem?_inj (List.getElem?_eq_some_iff.mp here).1 distinct).mp (here.trans there.symm)
  · rintro rfl
    exact Option.some.inj (here.symm.trans there)

end Plan

end NamedData.Exchange
