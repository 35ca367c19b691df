import NamedData.Proofs.Name.Grammar

/-!
Names that are printed and read again.

A printed name is a path of canonical spellings. It has no blanks and no colon, so nothing but its slashes
is told apart in it, and it is cut into the spellings it was made of (`cutAtSlashes_path`). What gets lost is
a component that is empty: it leaves no segment, and if it is the first it makes the next one look like the
host (`Name.reread`). So the names that are read back are those without empty components, and these are the
names that can be read at all (`printed_names_are_read_back`).
-/
namespace NamedData.Name

/-- No component of a name is empty. -/
def Proper (n : Name) : Prop := ∀ c ∈ n.components, c.octets ≠ []

/-- The path that components make: the spelling of each behind a slash. -/
def path (components : List Component) : List Char := components.flatMap fun c => '/' :: c.toChars

/-- What is left of some components when the first of them, being empty, makes the next one the host. -/
def behindHost : List Component → List Component
  | first :: host :: rest => if first.octets.isEmpty then rest else first :: host :: rest
  | components => components

/-- What a name becomes when it is printed and read. -/
def reread (n : Name) : Name := ⟨(behindHost n.components).filter fun c => !c.octets.isEmpty⟩

theorem path_cons (c : Component) (components : List Component) :
    path (c :: components) = '/' :: (c.toChars ++ path components) := rfl

/-- The empty name is printed like one with nothing but an empty component. -/
theorem toChars_eq_path (n : Name) : ∃ components, n.toChars = path components ∧
    (⟨components⟩ : Name).reread = n.reread := by
  obtain ⟨components⟩ := n
  cases components with
  | nil => exact ⟨[⟨[]⟩], rfl, rfl⟩
  | cons c components => exact ⟨c :: components, rfl, rfl⟩

theorem plain_of_mem_path {components : List Component} {c : Char} (member : c ∈ path components) :
    c ≠ ':' ∧ Text.isBlank c = false := by
  obtain ⟨component, -, spelled⟩ := List.mem_flatMap.mp member
  rcases List.mem_cons.mp spelled with rfl | spelled
  · decide
  · exact (Component.plain_of_mem_toChars spelled).2

/-- A path begins with a slash, if it is not empty. -/
theorem path_eq_nil_or (components : List Component) :
    path components = [] ∨ ∃ later, path components = '/' :: later := by
  cases components with
  | nil => exact .inl rfl
  | cons c components => exact .inr ⟨_, path_cons c components⟩

/-- A path is cut into the spellings it was made of, and an empty segment before the first slash. -/
theorem cutAtSlashes_path (components : List Component) :
    CutAtSlashes (path components) ([] :: components.map (·.toChars)) := by
  refine ⟨by simp, ?_, ?_⟩
  · intro s member
    rcases List.mem_cons.mp member with rfl | spelled
    · exact List.not_mem_nil
    · obtain ⟨component, -, rfl⟩ := List.mem_map.mp spelled
      exact fun slash => (Component.plain_of_mem_toChars slash).1 rfl
  · induction components with
    | nil => rfl
    | cons c components ih =>
      rw [List.map_cons, List.intercalate_cons_cons, path_cons, ← ih]
      cases components with
      | nil => simp
      | cons => simp [List.intercalate_cons_cons]

/-- Of a path the components are read that are not empty. -/
theorem spells_path (components : List Component) :
    List.Forall₂ (fun s c => Component.Spells s c.octets)
      (([] :: components.map (·.toChars)).filter fun s => !s.isEmpty)
      (components.filter fun c => !c.octets.isEmpty) := by
  induction components with
  | nil => exact .nil
  | cons c components ih =>
    have spelled := Component.spells_toChars c
    by_cases empty : c.octets = []
    · have none := spelled.eq_nil_iff.mp empty
      simpa [empty, none] using ih
    · have some := mt spelled.eq_nil_iff.mpr empty
      simpa [empty, some] using ⟨spelled, ih⟩

/-- A path begins with two slashes only if its first component is empty and not its last. -/
theorem not_slashes_path {c : Component} {components : List Component}
    (single : c.octets ≠ [] ∨ components = []) : ¬ ['/', '/'] <+: path (c :: components) := by
  rintro ⟨later, split⟩
  rw [path_cons] at split
  have split : '/' :: later = c.toChars ++ path components := (List.cons.inj split).2
  cases spelled : c.toChars with
  | nil =>
    rw [spelled] at split
    rcases single with some | rfl
    · exact some ((Component.spells_toChars c).eq_nil_iff.mpr spelled)
    · cases split
  | cons first more =>
    rw [spelled] at split
    obtain ⟨rfl, -⟩ := List.cons.inj split
    exact (Component.plain_of_mem_toChars (spelled ▸ List.mem_cons_self)).1 rfl

/-- A first component that is empty makes the next one look like the host. -/
theorem skipsAuthority_path (components : List Component) :
    SkipsAuthority (path components) (path (behindHost components)) := by
  match components with
  | [] => exact .none (by simp [path])
  | [c] => exact .none (not_slashes_path (.inr rfl))
  | c :: host :: rest =>
    by_cases empty : c.octets = []
    · have none := (Component.spells_toChars c).eq_nil_iff.mp empty
      have free : '/' ∉ host.toChars := fun slash => (Component.plain_of_mem_toChars slash).1 rfl
      have skips := SkipsAuthority.host free (path_eq_nil_or rest)
      simpa [behindHost, empty, path_cons, none] using skips
    · simp only [behindHost, List.isEmpty_iff, if_neg empty]
      exact .none (not_slashes_path (.inl empty))

/-- A printed name can always be read. -/
theorem ofUri?_toUri (n : Name) : ofUri? n.toUri = .ok n.reread := by
  obtain ⟨components, printed, same⟩ := toChars_eq_path n
  have trimmed : Text.Trimmed (path components) (path components) := by
    refine ⟨[], [], by simp, by simp, by simp, ?_, ?_⟩
    · intro c first
      exact (plain_of_mem_path (List.mem_of_mem_head? first)).2
    · intro c last
      exact (plain_of_mem_path (List.mem_of_getLast? last)).2
  have none : ∀ scheme rest, ¬ HasScheme (path components) scheme rest := by
    rintro scheme rest ⟨split, -⟩
    have colon : ':' ∈ path components := by rw [split]; simp
    exact (plain_of_mem_path colon).1 rfl
  -- There is neither a blank nor a colon, so all that can be taken off is a host.
  rw [ofUri?, toUri, String.toList_ofList, printed, ofChars?_eq_iff, Text.trim_eq_iff.mpr trimmed, ← same]
  exact .name (.plain none (skipsAuthority_path components)) (cutAtSlashes_path _) (spells_path _)

/-- A name becomes itself if no component is empty, and only then. -/
theorem reread_eq_self_iff {n : Name} : n.reread = n ↔ n.Proper := by
  obtain ⟨components⟩ := n
  constructor
  · intro same c member
    -- What is read has passed the filter, so a name that is read back has.
    have kept : components = (behindHost components).filter fun c => !c.octets.isEmpty :=
      (congrArg Name.components same).symm
    rw [kept] at member
    simpa using (List.mem_filter.mp member).2
  · intro proper
    have host : behindHost components = components := by
      match components with
      | [] => rfl
      | [_] => rfl
      | c :: _ :: _ => simp [behindHost, proper c List.mem_cons_self]
    simp only [reread, host]
    exact congrArg Name.mk (List.filter_eq_self.mpr fun c member => by simpa using proper c member)

/-- What segments spell is empty only if a segment is. -/
theorem proper_of_spelled {segs : List (List Char)} {components : List Component}
    (some : ∀ s ∈ segs, s ≠ [])
    (spelled : List.Forall₂ (fun s c => Component.Spells s c.octets) segs components) :
    Proper ⟨components⟩ := by
  induction spelled with
  | nil => exact fun c member => absurd member List.not_mem_nil
  | cons first _ ih =>
    rw [List.forall_mem_cons] at some
    exact List.forall_mem_cons.mpr ⟨mt first.eq_nil_iff.mp some.1, ih some.2⟩

/-- No name that can be read has an empty component. -/
theorem proper_of_ofUri? {uri : String} {n : Name} (read : ofUri? uri = .ok n) : n.Proper := by
  rw [ofUri?, ofChars?_eq_iff] at read
  cases read with
  | name _ _ spelled =>
    refine proper_of_spelled (fun s member => ?_) spelled
    simpa using (List.mem_filter.mp member).2

/-- **Printed names are read back, unless a component is empty.** A printed name can always be read, and it
is the same name if no component is empty, and only then. Names that were read have no empty component; so
they are read back from what they are printed as, and no two of them are printed alike. -/
theorem printed_names_are_read_back :
    (∀ n : Name, ofUri? n.toUri = .ok n.reread ∧ (ofUri? n.toUri = .ok n ↔ n.Proper)) ∧
      (∀ uri n, ofUri? uri = .ok n → n.Proper ∧ ofUri? n.toUri = .ok n) ∧
      ∀ uri other n m, ofUri? uri = .ok n → ofUri? other = .ok m → n.toUri = m.toUri → n = m := by
  have back : ∀ n : Name, ofUri? n.toUri = .ok n ↔ n.Proper := by
    intro n
    rw [ofUri?_toUri, Except.ok.injEq, reread_eq_self_iff]
  have again : ∀ uri n, ofUri? uri = .ok n → ofUri? n.toUri = .ok n :=
    fun uri n read => (back n).mpr (proper_of_ofUri? read)
  refine ⟨fun n => ⟨ofUri?_toUri n, back n⟩, ?_, ?_⟩
  · intro uri n read
    exact ⟨proper_of_ofUri? read, again uri n read⟩
  · intro uri other n m read also same
    have first := again uri n read
    rw [same, again other m also] at first
    exact (Except.ok.inj first).symm

/-- A name is printed and read, and is itself; whatever another spelling is read as, if it is printed like
this name it is this name. With an empty component in front, that one is lost, and the next. -/
theorem lost_behind_an_empty_component :
    let n : Name := ⟨[⟨[97]⟩, ⟨[255]⟩]⟩
    ofUri? "ndn://host/a//%ff" = .ok n ∧ ofUri? n.toUri = .ok n ∧
      (∀ m, ofUri? " /%61/%FF" = .ok m → n.toUri = m.toUri → n = m) ∧
      ofUri? (⟨⟨[]⟩ :: n.components⟩ : Name).toUri = .ok ⟨[⟨[255]⟩]⟩ := by
  intro n
  obtain ⟨all, again, alike⟩ := printed_names_are_read_back
  have chars : "ndn://host/a//%ff".toList = ['n', 'd', 'n', ':', '/', '/', 'h', 'o', 's', 't', '/',
      'a', '/', '/', '%', 'f', 'f'] := by
    simp
  have read : ofUri? "ndn://host/a//%ff" = .ok n := by
    rw [ofUri?, chars]
    rfl
  exact ⟨read, (again _ n read).2, fun m also same => alike _ _ n m read also same, (all _).1⟩

end NamedData.Name
