import NamedData.Name.Uri
import NamedData.Proofs.Name.Escaping

/-!
Which texts are URIs of names.

The grammar (`Name.Denotes`) says of a text what it denotes: a name, or the first fault in it. It is given
by what the parts of the text are made of, and each step of reading is shown to find the one part that the
grammar speaks of: the text between the blanks (`trim_eq_iff`), the scheme (`scheme?_eq_some_iff`), what
follows the authority (`dropAuthority_eq_iff`) and the segments (`segments_eq_iff`). So reading gives what
the grammar says, and nothing else (`uris_are_read_by_their_grammar`).
-/
namespace NamedData

/-- A text is cut where a test first fails. -/
theorem cut_iff {α : Type} {test : α → Bool} {text start rest : List α} :
    text.takeWhile test = start ∧ text.dropWhile test = rest ↔
      text = start ++ rest ∧ (∀ a ∈ start, test a = true) ∧ ∀ a ∈ rest.head?, test a = false := by
  constructor
  · rintro ⟨rfl, rfl⟩
    refine ⟨List.takeWhile_append_dropWhile.symm, List.all_eq_true.mp List.all_takeWhile, ?_⟩
    intro a first
    have fails := List.head?_dropWhile_not test text
    rw [Option.mem_def.mp first] at fails
    exact fails
  · rintro ⟨rfl, passes, fails⟩
    rw [List.takeWhile_append_of_pos passes, List.dropWhile_append_of_pos passes]
    cases rest with
    | nil => simp
    | cons a rest => simp [fails a rfl]

theorem dropWhile_eq_iff {α : Type} {test : α → Bool} {text rest : List α} :
    text.dropWhile test = rest ↔
      ∃ start, text = start ++ rest ∧ (∀ a ∈ start, test a = true) ∧
        ∀ a ∈ rest.head?, test a = false := by
  simp only [← cut_iff, exists_and_right, exists_eq', true_and]

namespace Text

/-- What stands between the blanks at the two ends of a text. -/
def Trimmed (text trimmed : List Char) : Prop :=
  ∃ before after, text = before ++ trimmed ++ after ∧ (∀ c ∈ before, isBlank c = true) ∧
    (∀ c ∈ after, isBlank c = true) ∧ (∀ c ∈ trimmed.head?, isBlank c = false) ∧
    ∀ c ∈ trimmed.getLast?, isBlank c = false

theorem trim_eq_iff {text trimmed : List Char} : trim text = trimmed ↔ Trimmed text trimmed := by
  -- The blanks at the end are dropped from the text turned round, once those in front are gone.
  rw [trim, List.reverse_eq_iff, dropWhile_eq_iff]
  constructor
  · rintro ⟨start, split, blanks, last⟩
    obtain ⟨before, whole, leading, first⟩ := dropWhile_eq_iff.mp (rfl : text.dropWhile isBlank = _)
    have middle : text.dropWhile isBlank = trimmed ++ start.reverse := by
      rw [← List.reverse_inj, split, List.reverse_append, List.reverse_reverse]
    rw [middle] at whole first
    refine ⟨before, start.reverse, by rw [List.append_assoc, ← whole], leading, ?_, ?_, ?_⟩
    · simpa using blanks
    · intro c head
      exact first c (by rw [List.head?_append, Option.mem_def.mp head]; rfl)
    · simpa using last
  · rintro ⟨before, after, rfl, leading, trailing, first, last⟩
    rw [List.append_assoc, List.dropWhile_append_of_pos leading]
    cases trimmed with
    | nil =>
      -- There is nothing but blanks, and all of them are dropped in front.
      have none : (after ++ []).dropWhile isBlank = [] := List.dropWhile_append_of_pos trailing
      exact ⟨[], by simpa using none, by simp, by simp⟩
    | cons c trimmed =>
      refine ⟨after.reverse, ?_, by simpa using trailing, by rwa [List.head?_reverse]⟩
      simp [first c rfl]

end Text

namespace Name

/-- A text begins with a scheme and a colon. The scheme has neither a colon nor a slash in it. -/
def HasScheme (uri scheme rest : List Char) : Prop :=
  uri = scheme ++ ':' :: rest ∧ ':' ∉ scheme ∧ '/' ∉ scheme

theorem scheme?_eq_some_iff {uri scheme rest : List Char} :
    scheme? uri = some (scheme, rest) ↔ HasScheme uri scheme rest := by
  -- The first colon is where the text is cut.
  have cut : ∀ start later,
      uri.takeWhile (· ≠ ':') = start ∧ uri.dropWhile (· ≠ ':') = ':' :: later ↔
        uri = start ++ ':' :: later ∧ ':' ∉ start := by
    intro start later
    rw [cut_iff]
    refine and_congr_right fun _ => ⟨fun other found => ?_, fun absent => ⟨?_, by simp⟩⟩
    · simpa using other.1 ':' found
    · intro c member
      exact decide_eq_true fun same => absent (same ▸ member)
  constructor
  · intro found
    cases behind : uri.dropWhile (· ≠ ':') with
    | nil =>
      simp only [scheme?, behind] at found
      cases found
    | cons c later =>
      have colon := (cut_iff.mp ⟨rfl, behind⟩).2.2 c rfl
      obtain rfl : c = ':' := by simpa using colon
      simp only [scheme?, behind] at found
      split at found
      · cases found
      · next free =>
        obtain ⟨rfl, rfl⟩ := Prod.mk.inj (Option.some.inj found)
        obtain ⟨split, absent⟩ := (cut _ _).mp ⟨rfl, behind⟩
        exact ⟨split, absent, by simpa using free⟩
  · rintro ⟨split, colon, slash⟩
    obtain ⟨before, behind⟩ := (cut scheme rest).mpr ⟨split, colon⟩
    simp only [scheme?, before, behind]
    rw [if_neg (by simpa using slash)]

/-- What follows the authority, if there is one: it stands behind two slashes and goes up to the next slash,
or to the end. -/
inductive SkipsAuthority : List Char → List Char → Prop where
  | host {host path : List Char} (free : '/' ∉ host) (cut : path = [] ∨ ∃ later, path = '/' :: later) :
      SkipsAuthority ('/' :: '/' :: (host ++ path)) path
  | none {path : List Char} (plain : ¬ ['/', '/'] <+: path) : SkipsAuthority path path

theorem dropAuthority_eq_iff {rest path : List Char} :
    dropAuthority rest = path ↔ SkipsAuthority rest path := by
  rw [dropAuthority.eq_def]
  split
  · next later =>
    rw [dropWhile_eq_iff]
    constructor
    · rintro ⟨host, rfl, free, cut⟩
      refine .host (fun found => by simpa using free '/' found) ?_
      cases path with
      | nil => exact .inl rfl
      | cons c path => exact .inr ⟨path, by simpa using cut c rfl⟩
    · intro skips
      cases skips with
      | @host host _ free cut =>
        refine ⟨host, rfl, ?_, ?_⟩
        · intro c member
          exact decide_eq_true fun same => free (same ▸ member)
        · rcases cut with rfl | ⟨later, rfl⟩ <;> simp
      | none plain => exact absurd (List.prefix_append ['/', '/'] later) plain
  · next other =>
    constructor
    · rintro rfl
      refine .none ?_
      rintro ⟨later, rfl⟩
      exact other later rfl
    · intro skips
      cases skips with
      | host => exact absurd rfl (other _)
      | none => rfl

/-- The path of a URI is what follows the authority. The authority comes behind the scheme `ndn`, or at the
beginning of a text without a scheme. -/
inductive HasPath (uri : List Char) : List Char → Prop where
  | scheme {rest path : List Char} (found : HasScheme uri ['n', 'd', 'n'] rest)
      (skips : SkipsAuthority rest path) : HasPath uri path
  | plain {path : List Char} (none : ∀ scheme rest, ¬ HasScheme uri scheme rest)
      (skips : SkipsAuthority uri path) : HasPath uri path

/-- The segments of a path are what its slashes separate. -/
def CutAtSlashes (path : List Char) (segs : List (List Char)) : Prop :=
  segs ≠ [] ∧ (∀ s ∈ segs, '/' ∉ s) ∧ ['/'].intercalate segs = path

theorem segments_eq_splitOn (path : List Char) : segments path = path.splitOn '/' := by
  induction path with
  | nil => rfl
  | cons c path ih =>
    rw [List.splitOn_eq_splitOnP] at ih
    have some : path.splitOnP (· == '/') ≠ [] := by
      rw [← List.splitOn_eq_splitOnP]
      exact List.splitOn_ne_nil _ _
    obtain ⟨head, tail, split⟩ := List.exists_cons_of_ne_nil some
    rw [List.splitOn_eq_splitOnP, List.splitOnP_cons_eq_if_modifyHead, segments, ih, split]
    by_cases slash : c = '/' <;> simp [slash]

theorem slash_not_mem_segments {path s : List Char} (member : s ∈ segments path) : '/' ∉ s := by
  induction path generalizing s with
  | nil =>
    rw [List.mem_singleton.mp member]
    exact List.not_mem_nil
  | cons c path ih =>
    rw [segments] at member
    split at member
    · next none =>
      rw [segments_eq_splitOn] at none
      exact absurd none (List.splitOn_ne_nil _ _)
    · next head tail split =>
      rw [split] at ih
      split at member
      · rcases List.mem_cons.mp member with rfl | later
        · exact List.not_mem_nil
        · exact ih later
      · next other =>
        rcases List.mem_cons.mp member with rfl | later
        · have free := ih List.mem_cons_self
          simp [free, Ne.symm other]
        · exact ih (List.mem_cons_of_mem _ later)

theorem segments_eq_iff {path : List Char} {segs : List (List Char)} :
    segments path = segs ↔ CutAtSlashes path segs := by
  constructor
  · rintro rfl
    refine ⟨?_, fun s member => slash_not_mem_segments member, ?_⟩
    · rw [segments_eq_splitOn]
      exact List.splitOn_ne_nil _ _
    · rw [segments_eq_splitOn, List.intercalate_splitOn]
  · rintro ⟨some, free, rfl⟩
    rw [segments_eq_splitOn, List.splitOn_intercalate _ free some]

/-- The first of some segments that is ill-escaped. -/
def FirstFault (segs : List (List Char)) (s : List Char) : Prop :=
  ∃ good later, segs = good ++ s :: later ∧ (∀ g ∈ good, ¬ Component.IllEscaped g) ∧
    Component.IllEscaped s

theorem firstFault_cons_iff {first s : List Char} {segs : List (List Char)} :
    FirstFault (first :: segs) s ↔ Component.IllEscaped first ∧ s = first ∨
      ¬ Component.IllEscaped first ∧ FirstFault segs s := by
  constructor
  · rintro ⟨good, later, split, sound, ill⟩
    cases good with
    | nil =>
      obtain ⟨rfl, rfl⟩ := List.cons.inj split
      exact .inl ⟨ill, rfl⟩
    | cons g good =>
      obtain ⟨rfl, rfl⟩ := List.cons.inj split
      rw [List.forall_mem_cons] at sound
      exact .inr ⟨sound.1, good, later, rfl, sound.2, ill⟩
  · rintro (⟨ill, rfl⟩ | ⟨sound, good, later, rfl, also, ill⟩)
    · exact ⟨[], segs, rfl, by simp, ill⟩
    · exact ⟨first :: good, later, rfl, List.forall_mem_cons.mpr ⟨sound, also⟩, ill⟩

/-- Empty segments have no faults. -/
theorem firstFault_filter_iff {segs : List (List Char)} {s : List Char} :
    FirstFault (segs.filter fun s => !s.isEmpty) s ↔ FirstFault segs s := by
  have sound : ¬ Component.IllEscaped [] := by
    rintro ⟨before, after, split, -⟩
    simp at split
  induction segs with
  | nil => exact Iff.rfl
  | cons first segs ih =>
    cases first with
    | nil => simp [firstFault_cons_iff, sound, ih]
    | cons c first => simp [firstFault_cons_iff, ih]

theorem ofSegments?_eq_ok_iff {segs : List (List Char)} {components : List Component} :
    ofSegments? segs = .ok components ↔
      List.Forall₂ (fun s c => Component.Spells s c.octets) segs components := by
  induction segs generalizing components with
  | nil => cases components <;> simp [ofSegments?]
  | cons s segs ih =>
    constructor
    · intro read
      rw [ofSegments?] at read
      split at read
      · cases read
      · next c first =>
        split at read
        · cases read
        · next cs rest =>
          cases read
          exact .cons (Component.ofEscaped?_eq_ok_iff.mp first) (ih.mp rest)
    · intro spelled
      cases spelled with
      | cons first rest => rw [ofSegments?, Component.ofEscaped?_eq_ok_iff.mpr first, ih.mpr rest]

/-- The first segment that is ill-escaped decides the error. -/
theorem ofSegments?_eq_error_iff {segs : List (List Char)} {e : NameError} :
    ofSegments? segs = .error e ↔ ∃ s, FirstFault segs s ∧ e = .invalidEscape (String.ofList s) := by
  induction segs with
  | nil => simp [ofSegments?, FirstFault]
  | cons first segs ih =>
    rw [ofSegments?]
    split
    · next e' refused =>
      obtain ⟨ill, rfl⟩ := Component.ofEscaped?_eq_error_iff.mp refused
      simp [firstFault_cons_iff, ill, eq_comm]
    · next c read =>
      have sound : ¬ Component.IllEscaped first := by
        intro ill
        have refused := Component.ofEscaped?_eq_error_iff.mpr ⟨ill, rfl⟩
        rw [read] at refused
        cases refused
      simp only [firstFault_cons_iff, sound, false_and, not_false_eq_true, true_and, false_or, ← ih]
      split
      · next refused => rw [refused]
      · next read => simp [read]

theorem ofPath?_eq_ok_iff {path : List Char} {name : Name} :
    ofPath? path = .ok name ↔ ∃ segs, CutAtSlashes path segs ∧
      List.Forall₂ (fun s c => Component.Spells s c.octets) (segs.filter fun s => !s.isEmpty)
        name.components := by
  obtain ⟨components⟩ := name
  simp only [← segments_eq_iff, exists_eq_left', ← ofSegments?_eq_ok_iff, ofPath?]
  cases ofSegments? ((segments path).filter fun s => !s.isEmpty) <;> simp

theorem ofPath?_eq_error_iff {path : List Char} {e : NameError} :
    ofPath? path = .error e ↔ ∃ segs s, CutAtSlashes path segs ∧ FirstFault segs s ∧
      e = .invalidEscape (String.ofList s) := by
  have faults : ofSegments? ((segments path).filter fun s => !s.isEmpty) = .error e ↔
      ∃ s, FirstFault (segments path) s ∧ e = .invalidEscape (String.ofList s) := by
    simp only [ofSegments?_eq_error_iff, firstFault_filter_iff]
  simp only [← segments_eq_iff, exists_and_left, exists_eq_left', ← faults, ofPath?]
  cases ofSegments? ((segments path).filter fun s => !s.isEmpty) <;> simp

/-- What a URI without blanks at its ends denotes: a name, or an error. -/
inductive Denotes (uri : List Char) : Except NameError Name → Prop where
  /-- It has a scheme other than `ndn`. -/
  | foreign {scheme rest : List Char} (found : HasScheme uri scheme rest)
      (other : scheme ≠ ['n', 'd', 'n']) :
      Denotes uri (.error (.unsupportedScheme (String.ofList uri)))
  /-- A segment is ill-escaped. The first that is decides the error. -/
  | fault {path s : List Char} {segs : List (List Char)} (found : HasPath uri path)
      (cut : CutAtSlashes path segs) (first : FirstFault segs s) :
      Denotes uri (.error (.invalidEscape (String.ofList s)))
  /-- Its segments, but for the empty ones, spell the components of the name. -/
  | name {path : List Char} {segs : List (List Char)} {name : Name} (found : HasPath uri path)
      (cut : CutAtSlashes path segs)
      (spelled : List.Forall₂ (fun s c => Component.Spells s c.octets)
        (segs.filter fun s => !s.isEmpty) name.components) : Denotes uri (.ok name)

/-- A URI without a foreign scheme denotes what its path is read as. -/
theorem denotes_iff_of_path {uri path : List Char} (own : ∀ scheme rest, HasScheme uri scheme rest →
      scheme = ['n', 'd', 'n']) (unique : ∀ other, HasPath uri other ↔ other = path)
    {answer : Except NameError Name} : Denotes uri answer ↔ ofPath? path = answer := by
  have found := (unique path).mpr rfl
  constructor
  · intro denotes
    cases denotes with
    | foreign scheme other => exact absurd (own _ _ scheme) other
    | fault other cut first =>
      obtain rfl := (unique _).mp other
      exact ofPath?_eq_error_iff.mpr ⟨_, _, cut, first, rfl⟩
    | name other cut spelled =>
      obtain rfl := (unique _).mp other
      exact ofPath?_eq_ok_iff.mpr ⟨_, cut, spelled⟩
  · intro read
    cases answer with
    | error e =>
      obtain ⟨segs, s, cut, first, rfl⟩ := ofPath?_eq_error_iff.mp read
      exact .fault found cut first
    | ok name =>
      obtain ⟨segs, cut, spelled⟩ := ofPath?_eq_ok_iff.mp read
      exact .name found cut spelled

theorem HasScheme.unique {uri scheme rest other behind : List Char} (has : HasScheme uri scheme rest)
    (also : HasScheme uri other behind) : other = scheme ∧ behind = rest := by
  have found := scheme?_eq_some_iff.mpr has
  rw [scheme?_eq_some_iff.mpr also] at found
  exact Prod.mk.inj (Option.some.inj found)

/-- A text without a scheme denotes what is read behind its authority. -/
theorem denotes_iff_of_plain {uri : List Char} (none : ∀ scheme rest, ¬ HasScheme uri scheme rest)
    {answer : Except NameError Name} : Denotes uri answer ↔ ofPath? (dropAuthority uri) = answer := by
  refine denotes_iff_of_path (fun scheme rest has => absurd has (none scheme rest)) fun path => ?_
  constructor
  · intro located
    cases located with
    | scheme has => exact absurd has (none _ _)
    | plain _ skips => exact (dropAuthority_eq_iff.mpr skips).symm
  · rintro rfl
    exact .plain none (dropAuthority_eq_iff.mp rfl)

/-- A text with the scheme `ndn` denotes what is read behind the scheme and the authority. -/
theorem HasScheme.denotes_iff {uri rest : List Char} (has : HasScheme uri ['n', 'd', 'n'] rest)
    {answer : Except NameError Name} : Denotes uri answer ↔ ofPath? (dropAuthority rest) = answer := by
  refine denotes_iff_of_path (fun scheme behind also => (has.unique also).1) fun path => ?_
  constructor
  · intro located
    cases located with
    | scheme also skips =>
      obtain ⟨-, rfl⟩ := has.unique also
      exact (dropAuthority_eq_iff.mpr skips).symm
    | plain none => exact absurd has (none _ _)
  · rintro rfl
    exact .scheme has (dropAuthority_eq_iff.mp rfl)

/-- A text with any other scheme denotes no name, whatever follows. -/
theorem HasScheme.denotes_iff_of_foreign {uri scheme rest : List Char} (has : HasScheme uri scheme rest)
    (foreign : scheme ≠ ['n', 'd', 'n']) {answer : Except NameError Name} :
    Denotes uri answer ↔ .error (.unsupportedScheme (String.ofList uri)) = answer := by
  have absent : ∀ path, ¬ HasPath uri path := by
    intro path located
    cases located with
    | scheme also => exact foreign (has.unique also).1.symm
    | plain none => exact none _ _ has
  constructor
  · intro denotes
    cases denotes with
    | foreign => rfl
    | fault located => exact absurd located (absent _)
    | name located => exact absurd located (absent _)
  · rintro rfl
    exact .foreign has foreign

theorem ofChars?_eq_iff {text : List Char} {answer : Except NameError Name} :
    ofChars? text = answer ↔ Denotes (Text.trim text) answer := by
  generalize trimmed : Text.trim text = uri
  simp only [ofChars?, trimmed]
  cases found : scheme? uri with
  | none =>
    have none : ∀ scheme rest, ¬ HasScheme uri scheme rest := by
      intro scheme rest has
      rw [scheme?_eq_some_iff.mpr has] at found
      cases found
    exact (denotes_iff_of_plain none).symm
  | some parts =>
    obtain ⟨scheme, rest⟩ := parts
    have has := scheme?_eq_some_iff.mp found
    by_cases own : scheme = ['n', 'd', 'n']
    · simp only [if_pos own]
      subst own
      exact has.denotes_iff.symm
    · simp only [if_neg own]
      exact (has.denotes_iff_of_foreign own).symm

/-- **A URI is read by its grammar.** What is read from a text is what it denotes once the blanks at its ends
are gone, be it a name or an error; and what a segment spells is shorter than the segment by two octets for
every escape. -/
theorem uris_are_read_by_their_grammar (uri : String) (answer : Except NameError Name) :
    (ofUri? uri = answer ↔ ∃ trimmed, Text.Trimmed uri.toList trimmed ∧ Denotes trimmed answer) ∧
      ∀ s octets, Component.Spells s octets → octets.length + 2 * s.count '%' = (utf8 s).length := by
  refine ⟨?_, fun s octets spells => spells.length_eq⟩
  rw [ofUri?, ofChars?_eq_iff]
  simp only [← Text.trim_eq_iff, exists_eq_left']

/-- What stands behind the host is cut into four segments, two of which are empty. -/
theorem read_behind_a_host :
    let uri := " ndn://h/a%2Fb//é/\n"
    let name : Name := ⟨[⟨[97, 47, 98]⟩, ⟨[195, 169]⟩]⟩
    ofUri? uri = .ok name ∧
      (∃ trimmed, Text.Trimmed uri.toList trimmed ∧ Denotes trimmed (.ok name)) ∧
      Component.Spells ['a', '%', '2', 'F', 'b'] [97, 47, 98] ∧ 3 + 2 * 1 = 5 := by
  intro uri name
  have chars : uri.toList = [' ', 'n', 'd', 'n', ':', '/', '/', 'h', '/', 'a', '%', '2', 'F', 'b',
      '/', '/', 'é', '/', '\n'] := by
    simp [uri]
  have read : ofUri? uri = .ok name := by
    rw [ofUri?, chars]
    rfl
  have spelled : Component.Spells ['a', '%', '2', 'F', 'b'] [97, 47, 98] :=
    .plain (by decide) (@Component.Spells.escape '2' 'F' 2 15 _ _ rfl rfl (.plain (by decide) .nil))
  obtain ⟨grammar, shorter⟩ := uris_are_read_by_their_grammar uri (.ok name)
  exact ⟨read, grammar.mp read, spelled, shorter _ _ spelled⟩

example : ofUri? "http:/a%2" = .error (.unsupportedScheme "http:/a%2") := rfl

example : ofUri? "/a/b%é/c%" = .error (.invalidEscape "b%é") := rfl

end Name

end NamedData
