import NamedData.Proofs.Name.Grammar

/-!
The spellings of one name.

A path may repeat its slashes and end in some, and a scheme, a host and blanks may stand around it
(`Name.Writes`). None of this is part of the name: the segments of a path are the same however it is joined
(`Joins.filter_segments`), and what stands around it is taken off before it is cut (`Writes.hasPath`). So
all spellings of some segments are read as the same name (`spellings_are_read_alike`).
-/
namespace NamedData.Name

/-- What may be written for one component of a name. -/
structure IsSegment (s : List Char) : Prop where
  nonempty : s ≠ []
  free : '/' ∉ s
  sound : ¬ Component.IllEscaped s
  visible : ∀ c ∈ s, Text.isBlank c = false

/-- A path in which every segment stands behind one slash or more, with any number of slashes at the end. -/
inductive Joins : List (List Char) → List Char → Prop where
  | close (more : Nat) : Joins [] (List.replicate more '/')
  | segment {s : List Char} {segs : List (List Char)} {path : List Char} (more : Nat)
      (rest : Joins segs path) : Joins (s :: segs) ('/' :: (List.replicate more '/' ++ (s ++ path)))

/-- A URI for some segments: a path that begins with a single slash, or any path behind a host, and either
with the scheme or without. If there are no segments, the path may begin as it likes. -/
inductive Writes (segs : List (List Char)) : List Char → Prop where
  | path {path : List Char} (joins : Joins segs path)
      (single : segs = [] ∨ ¬ ['/', '/'] <+: path) : Writes segs path
  | scheme {path : List Char} (joins : Joins segs path)
      (single : segs = [] ∨ ¬ ['/', '/'] <+: path) : Writes segs (['n', 'd', 'n', ':'] ++ path)
  | host {host path : List Char} (free : '/' ∉ host) (joins : Joins segs path) :
      Writes segs (['/', '/'] ++ host ++ path)
  | schemeHost {host path : List Char} (free : '/' ∉ host) (joins : Joins segs path) :
      Writes segs (['n', 'd', 'n', ':', '/', '/'] ++ host ++ path)

variable {segs : List (List Char)} {path uri : List Char}

/-! ## The segments of a path -/

/-- Whatever stands before a slash is cut apart from what stands behind it. -/
theorem segments_append_slash (start rest : List Char) :
    segments (start ++ '/' :: rest) = segments start ++ segments rest := by
  simp only [segments_eq_splitOn, List.splitOn_eq_splitOnP]
  exact List.splitOnP_append_cons start rest (beq_self_eq_true _)

/-- A text without slashes is one segment. -/
theorem segments_of_free {s : List Char} (free : '/' ∉ s) : segments s = [s] :=
  segments_eq_iff.mpr ⟨by simp, by simpa using free, by simp⟩

/-- Slashes in front add nothing but empty segments. -/
theorem filter_segments_slashes (more : Nat) (path : List Char) :
    (segments (List.replicate more '/' ++ path)).filter (fun s => !s.isEmpty) =
      (segments path).filter fun s => !s.isEmpty := by
  induction more with
  | zero => rfl
  | succ more ih =>
    have first := segments_append_slash [] (List.replicate more '/' ++ path)
    rw [List.replicate_succ, List.cons_append, ← List.nil_append ('/' :: _), first,
      segments_of_free List.not_mem_nil, List.filter_append, ih]
    rfl

namespace Joins

/-- A path begins with a slash, if it is not empty. -/
theorem eq_nil_or (joins : Joins segs path) : path = [] ∨ ∃ later, path = '/' :: later := by
  cases joins with
  | close more =>
    cases more with
    | zero => exact .inl rfl
    | succ more => exact .inr ⟨_, List.replicate_succ⟩
  | segment more rest => exact .inr ⟨_, rfl⟩

/-- The segments of a path are those it was joined from, and empty ones. -/
theorem filter_segments (joins : Joins segs path) (written : ∀ s ∈ segs, IsSegment s) :
    (segments path).filter (fun s => !s.isEmpty) = segs := by
  induction joins with
  | close more =>
    have none := filter_segments_slashes more []
    rw [List.append_nil] at none
    exact none
  | @segment s segs path more rest ih =>
    rw [List.forall_mem_cons] at written
    have others := ih written.2
    have one := segments_of_free written.1.free
    have kept : (!s.isEmpty) = true := by simpa using written.1.nonempty
    have front := filter_segments_slashes (more + 1) (s ++ path)
    rw [List.replicate_succ, List.cons_append] at front
    rw [front]
    rcases rest.eq_nil_or with rfl | ⟨later, rfl⟩
    · rw [List.append_nil, one, List.filter_cons, if_pos kept]
      exact congrArg (s :: ·) others
    · -- The slash behind the segment ends it, and is one of those in front of the rest.
      have behind := segments_append_slash [] later
      rw [segments_of_free List.not_mem_nil] at behind
      change segments ('/' :: later) = [] :: segments later at behind
      rw [behind] at others
      rw [segments_append_slash, one, List.singleton_append, List.filter_cons, if_pos kept]
      exact congrArg (s :: ·) others

/-- There are no blanks in a path. -/
theorem visible (joins : Joins segs path) (written : ∀ s ∈ segs, IsSegment s) :
    ∀ c ∈ path, Text.isBlank c = false := by
  have slash : ∀ more, ∀ c ∈ List.replicate more '/', Text.isBlank c = false := by
    intro more c member
    rw [List.eq_of_mem_replicate member]
    rfl
  induction joins with
  | close more => exact slash more
  | segment more rest ih =>
    rw [List.forall_mem_cons] at written
    simp only [List.forall_mem_cons, List.forall_mem_append]
    exact ⟨rfl, slash more, written.1.visible, ih written.2⟩

end Joins

/-! ## What stands around a path -/

/-- What begins with a slash has no scheme. -/
theorem not_hasScheme (begins : path = [] ∨ ∃ later, path = '/' :: later) (scheme rest : List Char) :
    ¬ HasScheme path scheme rest := by
  rintro ⟨split, -, free⟩
  rcases begins with rfl | ⟨later, rfl⟩
  · simp at split
  · cases scheme with
    | nil => cases split
    | cons c scheme =>
      obtain ⟨rfl, -⟩ := List.cons.inj split
      exact free List.mem_cons_self

/-- A path that begins with a single slash is not taken for a host. If it is made of slashes alone, what is
left of it is too. -/
theorem Joins.skipsAuthority (joins : Joins segs path) (single : segs = [] ∨ ¬ ['/', '/'] <+: path) :
    ∃ rest, SkipsAuthority path rest ∧ Joins segs rest := by
  by_cases double : ['/', '/'] <+: path
  · obtain rfl := single.resolve_right (not_not_intro double)
    cases joins with
    | close more =>
      obtain ⟨later, split⟩ := double
      obtain ⟨length, rest⟩ := List.append_eq_replicate_iff.mp split
      refine ⟨later, ?_, rest.2 ▸ .close _⟩
      rw [← split]
      have begins := (Joins.close later.length).eq_nil_or
      rw [← rest.2] at begins
      have free : '/' ∉ ([] : List Char) := List.not_mem_nil
      exact .host free begins
  · exact ⟨path, .none double, joins⟩

/-- What stands around a path is taken off. -/
theorem Writes.hasPath (writes : Writes segs uri) : ∃ path, HasPath uri path ∧ Joins segs path := by
  cases writes with
  | path joins single =>
    obtain ⟨rest, skips, joins'⟩ := joins.skipsAuthority single
    exact ⟨rest, .plain (not_hasScheme joins.eq_nil_or) skips, joins'⟩
  | scheme joins single =>
    obtain ⟨rest, skips, joins'⟩ := joins.skipsAuthority single
    exact ⟨rest, .scheme ⟨rfl, by decide, by decide⟩ skips, joins'⟩
  | @host host path free joins =>
    exact ⟨path, .plain (not_hasScheme (.inr ⟨_, rfl⟩)) (.host free joins.eq_nil_or), joins⟩
  | @schemeHost host path free joins =>
    exact ⟨path, .scheme ⟨rfl, by decide, by decide⟩ (.host free joins.eq_nil_or), joins⟩

/-- A text is trimmed to what stands between its blanks, if that neither begins nor ends with one. -/
theorem trimmed_between {text before after : List Char} (leading : ∀ c ∈ before, Text.isBlank c = true)
    (trailing : ∀ c ∈ after, Text.isBlank c = true) (visible : ∀ c ∈ text, Text.isBlank c = false) :
    Text.Trimmed (before ++ text ++ after) text :=
  ⟨before, after, rfl, leading, trailing, fun c first => visible c (List.mem_of_mem_head? first),
    fun c last => visible c (List.mem_of_getLast? last)⟩

/-- Of a host with nothing behind it the blanks at its end are lost. -/
theorem Joins.exists_kept {host : List Char} (joins : Joins segs path) (written : ∀ s ∈ segs, IsSegment s)
    (free : '/' ∉ host) :
    ∃ kept gap, host ++ path = kept ++ path ++ gap ∧ '/' ∉ kept ∧ (∀ c ∈ gap, Text.isBlank c = true) ∧
      ∀ c ∈ (kept ++ path).getLast?, Text.isBlank c = false := by
  cases path with
  | nil =>
    obtain ⟨before, split, blanks, last⟩ :=
      dropWhile_eq_iff.mp (rfl : host.reverse.dropWhile Text.isBlank = _)
    have whole : host = (host.reverse.dropWhile Text.isBlank).reverse ++ before.reverse := by
      rw [← List.reverse_append, ← split, List.reverse_reverse]
    refine ⟨(host.reverse.dropWhile Text.isBlank).reverse, before.reverse, ?_, ?_, ?_, ?_⟩
    · rw [List.append_nil, List.append_nil, ← whole]
    · exact fun slash => free (whole ▸ List.mem_append_left _ slash)
    · simpa using blanks
    · simpa using last
  | cons c path =>
    refine ⟨host, [], by simp, free, by simp, ?_⟩
    intro c last
    rw [List.getLast?_append_of_ne_nil _ (by simp)] at last
    exact joins.visible written c (List.mem_of_getLast? last)

/-- A URI with a host is trimmed to one with a host. -/
theorem Joins.trimmed_host {host before after : List Char} (start : List Char) (joins : Joins segs path)
    (written : ∀ s ∈ segs, IsSegment s) (free : '/' ∉ host)
    (leading : ∀ c ∈ before, Text.isBlank c = true) (trailing : ∀ c ∈ after, Text.isBlank c = true)
    (some : start ≠ []) (visible : ∀ c ∈ start, Text.isBlank c = false) :
    ∃ kept, '/' ∉ kept ∧
      Text.Trimmed (before ++ (start ++ host ++ path) ++ after) (start ++ kept ++ path) := by
  obtain ⟨kept, gap, split, slashless, blanks, end'⟩ := joins.exists_kept written free
  refine ⟨kept, slashless, before, gap ++ after, ?_, leading, ?_, ?_, ?_⟩
  · rw [List.append_assoc start, split]
    simp
  · exact List.forall_mem_append.mpr ⟨blanks, trailing⟩
  · intro c first
    rw [List.append_assoc, List.head?_append_of_ne_nil _ some] at first
    exact visible c (List.mem_of_mem_head? first)
  · intro c last
    rw [List.append_assoc, List.getLast?_append, Option.mem_def, Option.or_eq_some_iff] at last
    rcases last with last | ⟨-, last⟩
    · exact end' c last
    · exact visible c (List.mem_of_getLast? last)

/-- What is left of a URI between blanks writes the same. It is the URI itself, unless that ends in a host
with blanks at its end. -/
theorem Writes.trimmed (writes : Writes segs uri) (written : ∀ s ∈ segs, IsSegment s)
    {before after : List Char} (leading : ∀ c ∈ before, Text.isBlank c = true)
    (trailing : ∀ c ∈ after, Text.isBlank c = true) :
    ∃ trimmed, Text.Trimmed (before ++ uri ++ after) trimmed ∧ Writes segs trimmed := by
  cases writes with
  | path joins single =>
    exact ⟨_, trimmed_between leading trailing (joins.visible written), .path joins single⟩
  | scheme joins single =>
    have visible := List.forall_mem_append.mpr
      ⟨(by simp [Text.isBlank] : ∀ c ∈ ['n', 'd', 'n', ':'], Text.isBlank c = false), joins.visible written⟩
    exact ⟨_, trimmed_between leading trailing visible, .scheme joins single⟩
  | host free joins =>
    obtain ⟨kept, slashless, trimmed⟩ := joins.trimmed_host ['/', '/'] written free leading
      trailing (by simp) (by simp [Text.isBlank])
    exact ⟨_, trimmed, .host slashless joins⟩
  | schemeHost free joins =>
    obtain ⟨kept, slashless, trimmed⟩ := joins.trimmed_host ['n', 'd', 'n', ':', '/', '/']
      written free leading trailing (by simp) (by simp [Text.isBlank])
    exact ⟨_, trimmed, .schemeHost slashless joins⟩

/-! ## The name -/

/-- Segments that are well-escaped spell the components of a name. -/
theorem exists_spelled (written : ∀ s ∈ segs, IsSegment s) :
    ∃ components : List Component,
      List.Forall₂ (fun s c => Component.Spells s c.octets) segs components := by
  induction segs with
  | nil => exact ⟨[], .nil⟩
  | cons s segs ih =>
    rw [List.forall_mem_cons] at written
    obtain ⟨octets, spells⟩ := (Component.spells_or_illEscaped s).resolve_right written.1.sound
    obtain ⟨components, spelled⟩ := ih written.2
    exact ⟨⟨octets⟩ :: components, .cons spells spelled⟩

/-- **All spellings of some segments are read alike.** There is one name, of what the segments spell, as
which every URI for them is read: with or without the scheme, with any host or none, with however many
slashes between the segments and at the end, and whatever blanks there are around it. -/
theorem spellings_are_read_alike (written : ∀ s ∈ segs, IsSegment s) :
    ∃ name : Name, List.Forall₂ (fun s c => Component.Spells s c.octets) segs name.components ∧
      ∀ (text : String) (before uri after : List Char), text.toList = before ++ uri ++ after →
        Writes segs uri → (∀ c ∈ before, Text.isBlank c = true) → (∀ c ∈ after, Text.isBlank c = true) →
        ofUri? text = .ok name := by
  obtain ⟨components, spelled⟩ := exists_spelled written
  refine ⟨⟨components⟩, spelled, ?_⟩
  intro text before uri after split writes leading trailing
  obtain ⟨trimmed, between, rewritten⟩ := writes.trimmed written leading trailing
  obtain ⟨path, located, joins⟩ := rewritten.hasPath
  rw [ofUri?, ofChars?_eq_iff, split, Text.trim_eq_iff.mpr between]
  refine .name located (segments_eq_iff.mp rfl) ?_
  rw [joins.filter_segments written]
  exact spelled

/-- Two segments, the first with a colon and the second of an escaped slash, are written in four ways. -/
theorem read_alike_behind_hosts :
    let name : Name := ⟨[⟨[97, 58, 98]⟩, ⟨[47]⟩]⟩
    IsSegment ['a', ':', 'b'] ∧ IsSegment ['%', '2', 'f'] ∧
      ofUri? "/a:b//%2f" = .ok name ∧ ofUri? " ndn:/a:b/%2f//" = .ok name ∧
      ofUri? "//h:1//a:b/%2f\n" = .ok name ∧ ofUri? "ndn://h 1/a:b///%2f/" = .ok name := by
  intro name
  have first : IsSegment ['a', ':', 'b'] := by
    refine ⟨by simp, by simp, fun ill => ?_, by simp [Text.isBlank]⟩
    cases Component.unescape_eq_none_iff.mpr ill
  have second : IsSegment ['%', '2', 'f'] := by
    refine ⟨by simp, by simp, fun ill => ?_, by simp [Text.isBlank]⟩
    cases Component.unescape_eq_none_iff.mpr ill
  obtain ⟨read, -, alike⟩ := spellings_are_read_alike
    (List.forall_mem_cons.mpr ⟨first, List.forall_mem_singleton.mpr second⟩)
  have plain := alike "/a:b//%2f" [] _ [] (by simp)
    (.path (.segment 0 (.segment 1 (.close 0))) (.inr (by simp))) (by simp) (by simp)
  have scheme := alike " ndn:/a:b/%2f//" [' '] _ [] (by simp)
    (.scheme (.segment 0 (.segment 0 (.close 2))) (.inr (by simp))) (by simp [Text.isBlank]) (by simp)
  have slashless : '/' ∉ ['h', ':', '1'] ∧ '/' ∉ ['h', ' ', '1'] := by simp
  have host := alike "//h:1//a:b/%2f\n" [] _ ['\n'] (by simp)
    (.host slashless.1 (.segment 1 (.segment 0 (.close 0)))) (by simp)
    (by simp [Text.isBlank])
  have both := alike "ndn://h 1/a:b///%2f/" [] _ [] (by simp)
    (.schemeHost slashless.2 (.segment 0 (.segment 2 (.close 1)))) (by simp)
    (by simp)
  obtain rfl : read = name := by
    have chars : "/a:b//%2f".toList = ['/', 'a', ':', 'b', '/', '/', '%', '2', 'f'] := by simp
    rw [ofUri?, chars] at plain
    exact (Except.ok.inj plain).symm
  exact ⟨first, second, plain, scheme, host, both⟩

end NamedData.Name
