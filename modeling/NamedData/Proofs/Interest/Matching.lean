import Mathlib.Logic.ExistsUnique
import NamedData.Interest.Basic

/-!
Which names answer an interest.

A name that an interest matches continues the name of the interest, and the selectors speak of the
continuation alone (`Interest.Accepts`): of how long it is, with the implicit digest counted, and of its
first component. So what is excluded only counts as a set, and excluding one more component takes away the
names that go on with it and no others (`Interest.names_match_by_their_continuation`).
-/
namespace NamedData

namespace Name

/-- A name is a prefix of its continuations, and of nothing else. -/
theorem isPrefixOf_iff {n other : Name} :
    n.isPrefixOf other = true ↔ ∃ suffix, other = n.extend suffix := by
  rw [isPrefixOf, List.isPrefixOf_iff_prefix]
  constructor
  · rintro ⟨suffix, same⟩
    exact ⟨suffix, congrArg Name.mk same.symm⟩
  · rintro ⟨suffix, rfl⟩
    exact List.prefix_append ..

/-- A name is continued in one way only. -/
theorem extend_injective (n : Name) {suffix other : List Component} (same : n.extend suffix = n.extend other) :
    suffix = other :=
  List.append_cancel_left (congrArg components same)

@[simp] theorem length_extend (n : Name) (suffix : List Component) :
    (n.extend suffix).length = n.length + suffix.length := by
  simp [length, extend]

/-- Behind a name stands the first component of what it is continued by. -/
@[simp] theorem get?_extend (n : Name) (suffix : List Component) :
    (n.extend suffix).get? n.length = suffix.head? := by
  simp [get?, extend, length, List.head?_eq_getElem?, List.getElem?_append_right]

end Name

namespace Interest

/-- What may come behind the name of an interest, the implicit digest not among it. -/
structure Accepts (i : Interest) (suffix : List Component) : Prop where
  least : ∀ count, i.minSuffix = some count → count.toNat ≤ suffix.length + 1
  most : ∀ count, i.maxSuffix = some count → suffix.length + 1 ≤ count.toNat
  next : ∀ c ∈ suffix.head?, c ∉ i.exclude

/-- With the digest, a continued name has one component more behind the name of the interest than it was
continued by. -/
theorem suffixCount_extend (n : Name) (suffix : List Component) :
    (n.extend suffix).length + 1 - n.length = suffix.length + 1 := by
  rw [Name.length_extend]
  omega

theorem matchesName_extend {i : Interest} {suffix : List Component} :
    i.matchesName (i.name.extend suffix) = true ↔ i.Accepts suffix := by
  have continues : i.name.isPrefixOf (i.name.extend suffix) = true := Name.isPrefixOf_iff.mpr ⟨suffix, rfl⟩
  simp only [matchesName, continues, suffixCount_extend, Name.get?_extend, Bool.true_and, Bool.and_eq_true]
  constructor
  · rintro ⟨⟨least, most⟩, next⟩
    refine ⟨fun count set => ?_, fun count set => ?_, fun c first => ?_⟩
    · simpa [set] using least
    · simpa [set] using most
    · simpa [Option.mem_def.mp first] using next
  · rintro ⟨least, most, next⟩
    refine ⟨⟨?_, ?_⟩, ?_⟩
    · split
      · next count set => exact decide_eq_true (least count set)
      · rfl
    · split
      · next count set => exact decide_eq_true (most count set)
      · rfl
    · split
      · next c first => simpa using next c first
      · rfl

/-- An interest matches the names that continue its own by what it accepts. -/
theorem matchesName_iff {i : Interest} {n : Name} :
    i.matchesName n = true ↔ ∃ suffix, n = i.name.extend suffix ∧ i.Accepts suffix := by
  constructor
  · intro matched
    have continues : i.name.isPrefixOf n = true := by
      rw [matchesName, Bool.and_eq_true] at matched
      exact matched.1
    obtain ⟨suffix, rfl⟩ := Name.isPrefixOf_iff.mp continues
    exact ⟨suffix, rfl, matchesName_extend.mp matched⟩
  · rintro ⟨suffix, rfl, accepts⟩
    exact matchesName_extend.mpr accepts

/-- What is accepted depends on the bounds and on what is excluded, in whatever order and however often. -/
theorem accepts_congr {i other : Interest} (least : other.minSuffix = i.minSuffix)
    (most : other.maxSuffix = i.maxSuffix) (exclude : ∀ c, c ∈ other.exclude ↔ c ∈ i.exclude)
    {suffix : List Component} : other.Accepts suffix ↔ i.Accepts suffix := by
  constructor
  · rintro ⟨enough, few, next⟩
    exact ⟨least ▸ enough, most ▸ few, fun c first => mt (exclude c).mpr (next c first)⟩
  · rintro ⟨enough, few, next⟩
    exact ⟨least ▸ enough, most ▸ few, fun c first => mt (exclude c).mp (next c first)⟩

/-- When one more component is excluded, nothing that begins with it is accepted any more. -/
theorem accepts_withExclude {i : Interest} {c : Component} {suffix : List Component} :
    (i.withExclude c).Accepts suffix ↔ i.Accepts suffix ∧ suffix.head? ≠ some c := by
  constructor
  · rintro ⟨least, most, next⟩
    refine ⟨⟨least, most, fun first head => ?_⟩, fun head => ?_⟩
    · exact fun excluded => next first head (List.mem_append_left _ excluded)
    · exact next c head (List.mem_append_right _ List.mem_cons_self)
  · rintro ⟨⟨least, most, next⟩, other⟩
    refine ⟨least, most, fun first head excluded => ?_⟩
    rcases List.mem_append.mp excluded with old | new
    · exact next first head old
    · rw [List.mem_singleton.mp new] at head
      exact other head

/-- **A name is matched by its continuation.** It is matched if and only if it is the name of the interest
continued, in the one way that it can be, by components that are not too few or too many with the digest
among them, and the first of which is not excluded. The number that is compared is never taken from a
smaller one. So it does not matter how often or in what order components are excluded, nor what else the
interest says; and one more that is excluded takes away the names that go on with it. -/
theorem names_match_by_their_continuation (i : Interest) (n : Name) :
    (i.matchesName n = true ↔ ∃! suffix, n = i.name.extend suffix ∧ i.Accepts suffix) ∧
      (i.name.isPrefixOf n = true → i.name.length ≤ n.length + 1) ∧
      (∀ other : Interest, other.name = i.name → other.minSuffix = i.minSuffix →
        other.maxSuffix = i.maxSuffix → (∀ c, c ∈ other.exclude ↔ c ∈ i.exclude) →
        other.matchesName n = i.matchesName n) ∧
      ∀ c, (i.withExclude c).matchesName n = true ↔
        i.matchesName n = true ∧ ¬ ∃ rest, n = i.name.extend (c :: rest) := by
  refine ⟨?_, ?_, ?_, ?_⟩
  · rw [matchesName_iff]
    constructor
    · rintro ⟨suffix, rfl, accepts⟩
      exact ⟨suffix, ⟨rfl, accepts⟩, fun other also => i.name.extend_injective also.1.symm⟩
    · rintro ⟨suffix, found, -⟩
      exact ⟨suffix, found⟩
  · intro continues
    obtain ⟨suffix, rfl⟩ := Name.isPrefixOf_iff.mp continues
    rw [Name.length_extend]
    omega
  · intro other name least most exclude
    rw [Bool.eq_iff_iff, matchesName_iff, matchesName_iff, name]
    simp only [accepts_congr least most exclude]
  · intro c
    rw [matchesName_iff, matchesName_iff]
    constructor
    · rintro ⟨suffix, rfl, accepts⟩
      obtain ⟨accepts, other⟩ := accepts_withExclude.mp accepts
      refine ⟨⟨suffix, rfl, accepts⟩, ?_⟩
      rintro ⟨rest, same⟩
      rw [i.name.extend_injective same] at other
      exact other rfl
    · rintro ⟨⟨suffix, rfl, accepts⟩, other⟩
      refine ⟨suffix, rfl, accepts_withExclude.mpr ⟨accepts, fun head => ?_⟩⟩
      obtain ⟨rest, rfl⟩ := List.head?_eq_some_iff.mp head
      exact other ⟨rest, rfl⟩

/-- A name with one component behind that of the interest is matched, until that component is excluded. The
order of what is excluded does not matter. -/
theorem matched_until_excluded :
    let i : Interest := { name := ⟨[⟨[97]⟩]⟩, minSuffix := some 2, exclude := [⟨[120]⟩, ⟨[]⟩] }
    let other : Interest := { i with exclude := [⟨[]⟩, ⟨[120]⟩, ⟨[]⟩], nonce := some 7 }
    let n : Name := ⟨[⟨[97]⟩, ⟨[121]⟩]⟩
    (∃! suffix, n = i.name.extend suffix ∧ i.Accepts suffix) ∧
      i.name.isPrefixOf n = true ∧ i.name.length ≤ n.length + 1 ∧
      (∀ c, c ∈ other.exclude ↔ c ∈ i.exclude) ∧ other.matchesName n = true ∧
      ¬ (i.withExclude ⟨[121]⟩).matchesName n = true := by
  intro i other n
  have matched : i.matchesName n = true := by decide
  have continues : i.name.isPrefixOf n = true := by decide
  have same : ∀ c, c ∈ other.exclude ↔ c ∈ i.exclude := by simp [other, i, or_comm]
  obtain ⟨found, count, alike, fewer⟩ := names_match_by_their_continuation i n
  refine ⟨found.mp matched, continues, count continues, same, ?_, fun still => ?_⟩
  · exact (alike other rfl rfl rfl same).trans matched
  · exact ((fewer _).mp still).2 ⟨[], rfl⟩

end Interest

end NamedData
