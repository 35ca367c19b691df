import Mathlib.Data.List.Infix
import NamedData.Proofs.Interest.Matching
import NamedData.Table.Filters

/-!
The prefix order of names.

A name is compared with the beginning of another one, component by component, and must not be the longer of
the two (`Name.isPrefixOf_iff_pairs`). This orders names, the empty one coming first, and the beginnings of
one name are a chain. Filters and interests both match upwards in this order, so what an interest is
answered with is selected by every filter that the interest was selected by
(`Name.prefix_order_governs_matching`).
-/
namespace NamedData

namespace Name

variable {a b c : Name}

theorem isPrefixOf_iff_components : a.isPrefixOf b = true ↔ a.components <+: b.components :=
  List.isPrefixOf_iff_prefix

/-- Pairs of components say nothing about the longer tail, so the lengths are compared besides. -/
theorem isPrefixOf_iff_pairs :
    a.isPrefixOf b = true ↔
      a.length ≤ b.length ∧ ∀ pair ∈ a.components.zip b.components, pair.1 = pair.2 := by
  obtain ⟨as⟩ := a
  obtain ⟨bs⟩ := b
  rw [isPrefixOf_iff_components]
  simp only [length]
  induction as generalizing bs with
  | nil => simp
  | cons first as ih =>
    cases bs with
    | nil => simp
    | cons other bs =>
      rw [List.cons_prefix_cons, ih, List.zip_cons_cons, List.forall_mem_cons, List.length_cons,
        List.length_cons, Nat.succ_le_succ_iff]
      exact and_left_comm

theorem isPrefixOf_refl (a : Name) : a.isPrefixOf a = true :=
  isPrefixOf_iff_components.mpr List.prefix_rfl

theorem isPrefixOf_trans (first : a.isPrefixOf b = true) (second : b.isPrefixOf c = true) :
    a.isPrefixOf c = true := by
  rw [isPrefixOf_iff_components] at first second ⊢
  exact first.trans second

/-- Two names that begin with each other are of one length, so nothing is left over. -/
theorem isPrefixOf_antisymm (first : a.isPrefixOf b = true) (second : b.isPrefixOf a = true) : a = b := by
  rw [isPrefixOf_iff_components] at first second
  have same : a.components = b.components := first.eq_of_length_le second.length_le
  exact congrArg mk same

theorem empty_isPrefixOf (b : Name) : empty.isPrefixOf b = true :=
  isPrefixOf_iff_components.mpr List.nil_prefix

/-! ## The beginnings of a name -/

theorem isPrefixOf_iff_take : a.isPrefixOf b = true ↔ b.take a.length = a := by
  rw [isPrefixOf_iff_components, List.prefix_iff_eq_take]
  constructor
  · intro same
    exact congrArg mk same.symm
  · intro same
    exact (congrArg components same).symm

theorem take_isPrefixOf (b : Name) (count : Nat) : (b.take count).isPrefixOf b = true :=
  isPrefixOf_iff_components.mpr (List.take_prefix count b.components)

theorem length_take (b : Name) (count : Nat) : (b.take count).length = min count b.length :=
  List.length_take

theorem take_take (b : Name) (count fewer : Nat) :
    (b.take count).take fewer = b.take (min fewer count) :=
  congrArg mk List.take_take

/-- Of two beginnings of one name the shorter is a beginning of the longer. -/
theorem isPrefixOf_total (first : a.isPrefixOf c = true) (second : b.isPrefixOf c = true) :
    a.isPrefixOf b = true ∨ b.isPrefixOf a = true := by
  simp only [isPrefixOf_iff_components] at first second ⊢
  exact List.prefix_or_prefix_of_prefix first second

end Name

/-! ## Matching upwards -/

/-- An interest is answered by names that continue its own. -/
theorem Interest.isPrefixOf_of_matchesName {i : Interest} {d : Name} (matched : i.matchesName d = true) :
    i.name.isPrefixOf d = true := by
  obtain ⟨suffix, same, -⟩ := Interest.matchesName_iff.mp matched
  exact Name.isPrefixOf_iff.mpr ⟨suffix, same⟩

/-- A filter selects all continuations of what it selects. -/
theorem InterestFilter.matchesName_mono {f : InterestFilter} {n other : Name}
    (continued : n.isPrefixOf other = true) (selected : f.matchesName n = true) :
    f.matchesName other = true :=
  Name.isPrefixOf_trans selected continued

/-- The longer a name, the more filters select it, and they stay in the order they were set. -/
theorem FilterTable.matching_sublist {κ : Type} (t : FilterTable κ) {n other : Name}
    (continued : n.isPrefixOf other = true) : (t.matching n).Sublist (t.matching other) :=
  List.monotone_filter_right t.entries fun _ selected =>
    InterestFilter.matchesName_mono continued selected

/-- **The prefix order governs what matches.** To be a prefix is to be no longer and to agree on every pair of
components. It is a partial order with the empty name below all others. The prefixes of a name are its
beginnings: there is one of each length up to its own, a beginning of a beginning is a beginning, and any two
of them are comparable. If a filter selects an interest, then it selects every name that answers the interest;
and the filters that select a name are, in their order, among those that select a continuation of it. -/
theorem Name.prefix_order_governs_matching :
    (∀ a b : Name, a.isPrefixOf b = true ↔
      a.length ≤ b.length ∧ ∀ pair ∈ a.components.zip b.components, pair.1 = pair.2) ∧
    ((∀ a : Name, a.isPrefixOf a = true) ∧
      (∀ a b : Name, a.isPrefixOf b = true → b.isPrefixOf a = true → a = b) ∧
      (∀ a b c : Name, a.isPrefixOf b = true → b.isPrefixOf c = true → a.isPrefixOf c = true) ∧
      ∀ b : Name, Name.empty.isPrefixOf b = true) ∧
    (∀ a b : Name, a.isPrefixOf b = true ↔ b.take a.length = a) ∧
    (∀ (b : Name) (n : Nat), (b.take n).isPrefixOf b = true ∧ (b.take n).length = min n b.length ∧
      ∀ m, (b.take n).take m = b.take (min m n)) ∧
    (∀ a b c : Name, a.isPrefixOf c = true → b.isPrefixOf c = true →
      a.isPrefixOf b = true ∨ b.isPrefixOf a = true) ∧
    (∀ (f : InterestFilter) (i : Interest) (d : Name), f.matchesName i.name = true →
      i.matchesName d = true → f.matchesName d = true) ∧
    ∀ (κ : Type) (t : FilterTable κ) (n d : Name), n.isPrefixOf d = true →
      (t.matching n).Sublist (t.matching d) := by
  refine ⟨fun a b => isPrefixOf_iff_pairs, ⟨isPrefixOf_refl, ?_, ?_, empty_isPrefixOf⟩,
    fun a b => isPrefixOf_iff_take, ?_, ?_, ?_, ?_⟩
  · intro a b first second
    exact isPrefixOf_antisymm first second
  · intro a b c first second
    exact isPrefixOf_trans first second
  · intro b n
    exact ⟨b.take_isPrefixOf n, b.length_take n, b.take_take n⟩
  · intro a b c first second
    exact isPrefixOf_total first second
  · intro f i d selected matched
    exact InterestFilter.matchesName_mono (Interest.isPrefixOf_of_matchesName matched) selected
  · intro κ t n d continued
    exact t.matching_sublist continued

/-- A filter that selects an interest selects what answers it. A filter for the answer alone is set behind
it, and does not select the interest. -/
theorem Name.selected_like_its_answer :
    let root : Name := ⟨[⟨[97]⟩]⟩
    let i : Interest := { name := ⟨[⟨[97]⟩, ⟨[]⟩]⟩ }
    let d : Name := ⟨[⟨[97]⟩, ⟨[]⟩, ⟨[98]⟩]⟩
    let t : FilterTable Unit := ⟨[⟨⟨1⟩, ⟨root⟩, ()⟩, ⟨⟨2⟩, ⟨d⟩, ()⟩]⟩
    (root.isPrefixOf i.name = true ∧ i.name.isPrefixOf d = true ∧ root.isPrefixOf d = true) ∧
      ((d.take 2).isPrefixOf i.name = true ∧ i.name.isPrefixOf (d.take 2) = true ∧ d.take 2 = i.name) ∧
      (root.isPrefixOf i.name = true ∨ i.name.isPrefixOf root = true) ∧
      ((⟨root⟩ : InterestFilter).matchesName i.name = true ∧ i.matchesName d = true ∧
        (⟨root⟩ : InterestFilter).matchesName d = true) ∧
      (t.matching i.name).length = 1 ∧ (t.matching i.name).Sublist (t.matching d) := by
  intro root i d t
  obtain ⟨-, ⟨-, antisymmetric, transitive, -⟩, -, -, comparable, upwards, sublist⟩ :=
    prefix_order_governs_matching
  have first : root.isPrefixOf i.name = true := by decide
  have second : i.name.isPrefixOf d = true := by decide
  have whole := transitive root i.name d first second
  have there : (d.take 2).isPrefixOf i.name = true := by decide
  have back : i.name.isPrefixOf (d.take 2) = true := by decide
  have matched : i.matchesName d = true := by decide
  exact ⟨⟨first, second, whole⟩, ⟨there, back, antisymmetric _ _ there back⟩,
    comparable root i.name d whole second, ⟨first, matched, upwards ⟨root⟩ i d first matched⟩,
    by decide, sublist Unit t i.name d second⟩

end NamedData
