import TypeDoctrine.Location

/-!
# How a path reads

A path names the root by a slash at its start, the current directory by a dot at its start, the parent directory by two
dots and anything else by its name; further slashes and dots name nothing. `Path.Spells` says so of the text, form by
form, and splits nothing. Every text reads in exactly one way, and `components` is that way (`spells_iff`).
-/

namespace TypeDoctrine.Path

/-- A piece of a path ends with the text or before a slash. -/
def Ends (rest : List Char) : Prop :=
  rest = [] ∨ ∃ more, rest = '/' :: more

/-- What a path names after its start. -/
inductive Reads : List Char → List Component → Prop
  | done : Reads [] []
  | slash {rest : List Char} {cs : List Component} : Reads rest cs → Reads ('/' :: rest) cs
  | dot {rest : List Char} {cs : List Component} : Ends rest → Reads rest cs → Reads ('.' :: rest) cs
  | parent {rest : List Char} {cs : List Component} : Ends rest → Reads rest cs →
      Reads ('.' :: '.' :: rest) (.parent :: cs)
  | name {piece rest : List Char} {cs : List Component} : piece ≠ [] → '/' ∉ piece → piece ≠ ['.'] →
      piece ≠ ['.', '.'] → Ends rest → Reads rest cs → Reads (piece ++ rest) (.name (String.ofList piece) :: cs)

/-- The text is a path with these components. -/
inductive Spells (path : String) : List Component → Prop
  | absolute {rest : List Char} {cs : List Component} : path.toList = '/' :: rest → Reads rest cs →
      Spells path (.root :: cs)
  | current {rest : List Char} {cs : List Component} : path.toList = '.' :: rest → Ends rest → Reads rest cs →
      Spells path (.current :: cs)
  | relative {cs : List Component} : (∀ rest, path.toList ≠ '/' :: rest) →
      (∀ rest, Ends rest → path.toList ≠ '.' :: rest) → Reads path.toList cs → Spells path cs

/-! ## Pieces -/

theorem pieces_of_not_mem {piece : List Char} (h : '/' ∉ piece) : pieces piece = [piece] := by
  induction piece with
  | nil => rfl
  | cons c piece ih =>
    rw [List.mem_cons, not_or] at h
    simp [pieces, ih h.2, Ne.symm h.1]

theorem pieces_append_slash {piece : List Char} (h : '/' ∉ piece) (rest : List Char) :
    pieces (piece ++ '/' :: rest) = piece :: pieces rest := by
  induction piece with
  | nil => rfl
  | cons c piece ih =>
    rw [List.mem_cons, not_or] at h
    simp [pieces, ih h.2, Ne.symm h.1]

/-- Every text starts with a piece. -/
theorem exists_piece (text : List Char) : ∃ piece rest, '/' ∉ piece ∧ Ends rest ∧ text = piece ++ rest := by
  induction text with
  | nil => exact ⟨[], [], List.not_mem_nil, .inl rfl, rfl⟩
  | cons c text ih =>
    by_cases hc : c = '/'
    · exact ⟨[], c :: text, List.not_mem_nil, .inr ⟨text, by rw [hc]⟩, rfl⟩
    · obtain ⟨piece, rest, hp, hr, rfl⟩ := ih
      refine ⟨c :: piece, rest, ?_, hr, rfl⟩
      rw [List.mem_cons, not_or]
      exact ⟨Ne.symm hc, hp⟩

theorem head?_pieces {piece rest : List Char} (hp : '/' ∉ piece) (hr : Ends rest) :
    (pieces (piece ++ rest)).head? = some piece := by
  rcases hr with rfl | ⟨more, rfl⟩
  · rw [List.append_nil, pieces_of_not_mem hp, List.head?_cons]
  · rw [pieces_append_slash hp, List.head?_cons]

/-! ## What pieces name -/

/-- What pieces name after the start of a path. -/
def named (ps : List (List Char)) : List Component :=
  (ps.filter fun p => !(p == [] || p == ['.'])).map componentOf

theorem named_cons (piece : List Char) (ps : List (List Char)) : named (piece :: ps) = named [piece] ++ named ps := by
  unfold named
  rw [← List.map_append, ← List.filter_append, List.singleton_append]

theorem named_slash (rest : List Char) : named (pieces ('/' :: rest)) = named (pieces rest) :=
  rfl

theorem named_piece {piece rest : List Char} (hp : '/' ∉ piece) (hr : Ends rest) :
    named (pieces (piece ++ rest)) = named [piece] ++ named (pieces rest) := by
  rcases hr with rfl | ⟨more, rfl⟩
  · rw [List.append_nil, pieces_of_not_mem hp, pieces, show named [[]] = [] from rfl, List.append_nil]
  · rw [pieces_append_slash hp, named_cons, named_slash]

theorem named_name {piece : List Char} (hne : piece ≠ []) (hdot : piece ≠ ['.']) (hdots : piece ≠ ['.', '.']) :
    named [piece] = [.name (String.ofList piece)] := by
  simp [named, componentOf, hne, hdot, hdots]

theorem Reads.named_eq {text : List Char} {cs : List Component} (h : Reads text cs) : named (pieces text) = cs := by
  induction h with
  | done => rfl
  | slash _ ih => rw [named_slash, ih]
  | @dot rest cs hr _ ih =>
    have hdot : '/' ∉ ['.'] := by decide
    exact (named_piece hdot hr).trans ih
  | @parent rest cs hr _ ih =>
    have hdots : '/' ∉ ['.', '.'] := by decide
    rw [← ih]
    exact named_piece hdots hr
  | name hne hp hdot hdots hr _ ih => rw [named_piece hp hr, named_name hne hdot hdots, ih, List.singleton_append]

/-- Every text can be read: take its first piece and read on behind it. -/
theorem reads_named (text : List Char) : Reads text (named (pieces text)) := by
  induction hn : text.length using Nat.strongRecOn generalizing text with
  | ind n ih =>
    obtain ⟨piece, rest, hp, hr, rfl⟩ := exists_piece text
    by_cases hne : piece = []
    · subst hne
      rcases hr with rfl | ⟨more, rfl⟩
      · exact .done
      · rw [List.nil_append, named_slash]
        exact .slash (ih more.length (by simp [← hn]) more rfl)
    · have hlen : rest.length < n := by
        have := List.length_pos_iff.2 hne
        rw [List.length_append] at hn
        omega
      have hrest := ih rest.length hlen rest rfl
      rw [named_piece hp hr]
      by_cases hdot : piece = ['.']
      · subst hdot
        exact .dot hr hrest
      · by_cases hdots : piece = ['.', '.']
        · subst hdots
          exact .parent hr hrest
        · rw [named_name hne hdot hdots]
          exact .name hne hp hdot hdots hr hrest

/-! ## The components of a path -/

theorem components_absolute {path : String} {rest : List Char} (h : path.toList = '/' :: rest) :
    components path = .root :: named (pieces rest) := by
  simp only [components, h]
  rfl

theorem components_current {path : String} {rest : List Char} (h : path.toList = '.' :: rest) (hr : Ends rest) :
    components path = .current :: named (pieces rest) := by
  have hdot : '/' ∉ ['.'] := by decide
  have hhead : (pieces ('.' :: rest)).head? = some ['.'] := head?_pieces hdot hr
  have hnamed : named (pieces ('.' :: rest)) = named (pieces rest) := named_piece hdot hr
  rw [← hnamed]
  simp only [components, h, hhead]
  rfl

theorem components_relative {path : String} (hroot : ∀ rest, path.toList ≠ '/' :: rest)
    (hdot : ∀ rest, Ends rest → path.toList ≠ '.' :: rest) : components path = named (pieces path.toList) := by
  have hhead : path.toList.head? ≠ some '/' := by
    intro h
    obtain ⟨rest, hrest⟩ := List.head?_eq_some_iff.1 h
    exact hroot rest hrest
  have hpiece : (pieces path.toList).head? ≠ some ['.'] := by
    obtain ⟨piece, rest, hp, hr, hpath⟩ := exists_piece path.toList
    rw [hpath, head?_pieces hp hr]
    rintro ⟨⟩
    exact hdot rest hr hpath
  simp only [components, beq_iff_eq, if_neg hhead, if_neg hpiece]
  rfl

/-- A path reads as its components and in no other way. -/
theorem spells_iff (path : String) (cs : List Component) : Spells path cs ↔ components path = cs := by
  constructor
  · rintro (⟨h, hr⟩ | ⟨h, he, hr⟩ | ⟨hroot, hdot, hr⟩)
    · rw [components_absolute h, hr.named_eq]
    · rw [components_current h he, hr.named_eq]
    · rw [components_relative hroot hdot, hr.named_eq]
  · rintro rfl
    by_cases hroot : ∃ rest, path.toList = '/' :: rest
    · obtain ⟨rest, h⟩ := hroot
      rw [components_absolute h]
      exact .absolute h (reads_named rest)
    · by_cases hdot : ∃ rest, Ends rest ∧ path.toList = '.' :: rest
      · obtain ⟨rest, he, h⟩ := hdot
        rw [components_current h he]
        exact .current h he (reads_named rest)
      · have hroot' : ∀ rest, path.toList ≠ '/' :: rest := fun rest h => hroot ⟨rest, h⟩
        have hdot' : ∀ rest, Ends rest → path.toList ≠ '.' :: rest := fun rest he h => hdot ⟨rest, he, h⟩
        rw [components_relative hroot' hdot']
        exact .relative hroot' hdot' (reads_named path.toList)

example : components "./src//../lib/.hidden/." = [.current, .name "src", .parent, .name "lib", .name ".hidden"] := by
  decide +kernel

end TypeDoctrine.Path
