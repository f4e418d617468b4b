import TypeDoctrine.Proofs.DisplayName
import TypeDoctrine.Text.Decimal

/-!
# The spellings of a generic name

A generic name is written with its type arguments in angle brackets or with their number after a grave accent.
The arguments are names, applied to further arguments or not, tuples and arrays, nested to any depth.

Counting them comes down to one notion, `Adds`: how many commas a text adds outside angle brackets, whatever
stands around it. As long as the arguments are built by application alone, both spellings are read alike
(`spellings_agree`). A tuple or the rank of an array adds its own commas to the count, unless it stands in angle
brackets itself (`tuples_add_commas`).
-/

namespace TypeDoctrine

open Text (isBlank trim trimEnd natural? wordLimit digits)

namespace GenericName

/-! ## The grammar -/

/-- A name among type arguments, possibly empty: any text without angle brackets and commas. -/
structure ArgumentName where
  chars : List Char
  ne : ∀ c ∈ chars, c ≠ '<' ∧ c ≠ '>' ∧ c ≠ ','

mutual

/-- A type argument. A tuple has two elements or more, and the rank of an array is one more than its commas. -/
inductive TypeArg where
  | name (n : ArgumentName)
  | applied (n : ArgumentName) (args : TypeArgs)
  | tuple (first : TypeArg) (gap : Nat) (rest : TypeArgs)
  | array (element : TypeArg) (commas : Nat)

/-- One type argument or more; `gap` is the number of blanks after a comma. -/
inductive TypeArgs where
  | one (arg : TypeArg)
  | more (arg : TypeArg) (gap : Nat) (rest : TypeArgs)

end

/-- The comma between two arguments. -/
def separator (gap : Nat) : List Char :=
  ',' :: List.replicate gap ' '

mutual

def TypeArg.text : TypeArg → List Char
  | .name n => n.chars
  | .applied n args => n.chars ++ ('<' :: args.text ++ ['>'])
  | .tuple first gap rest => ['('] ++ (first.text ++ (separator gap ++ rest.text)) ++ [')']
  | .array element commas => element.text ++ (['['] ++ List.replicate commas ',' ++ [']'])

def TypeArgs.text : TypeArgs → List Char
  | .one arg => arg.text
  | .more arg gap rest => arg.text ++ (separator gap ++ rest.text)

end

/-- The number of arguments after the first. -/
def TypeArgs.further : TypeArgs → Nat
  | .one _ => 0
  | .more _ _ rest => rest.further + 1

/-- The number of arguments. -/
def TypeArgs.count (args : TypeArgs) : Nat :=
  args.further + 1

mutual

/-- Built from names by application alone. -/
def TypeArg.isNominal : TypeArg → Bool
  | .name _ => true
  | .applied _ args => args.isNominal
  | .tuple _ _ _ => false
  | .array _ _ => false

def TypeArgs.isNominal : TypeArgs → Bool
  | .one arg => arg.isNominal
  | .more arg _ rest => arg.isNominal && rest.isNominal

end

mutual

/-- The commas between the elements of tuples and in the ranks of arrays that stand in no angle brackets. -/
def TypeArg.looseCommas : TypeArg → Nat
  | .name _ => 0
  | .applied _ _ => 0
  | .tuple first _ rest => first.looseCommas + (rest.count + rest.looseCommas)
  | .array element commas => element.looseCommas + commas

def TypeArgs.looseCommas : TypeArgs → Nat
  | .one arg => arg.looseCommas
  | .more arg _ rest => arg.looseCommas + rest.looseCommas

end

/-- A name without arguments. -/
structure BaseName where
  chars : List Char
  no_bracket : '<' ∉ chars
  no_accent : '\x60' ∉ chars
  no_mark : globalMark.isPrefixOf chars = false
  first_ne : ∀ c ∈ chars.head?, isBlank c = false
  last_ne : ∀ c ∈ chars.getLast?, isBlank c = false

/-- What may stand around a name: blanks on both sides and global marks before it. -/
structure Frame where
  before : List Char
  marks : Nat
  after : List Char
  before_isBlank : ∀ c ∈ before, isBlank c = true
  after_isBlank : ∀ c ∈ after, isBlank c = true

def Frame.around (f : Frame) (cs : List Char) : String :=
  String.ofList (f.before ++ ((List.replicate f.marks globalMark).flatten ++ cs) ++ f.after)

namespace BaseName

def name (b : BaseName) : String :=
  String.ofList b.chars

/-- The name with its arguments in angle brackets. -/
def applied (b : BaseName) (args : TypeArgs) : List Char :=
  b.chars ++ '<' :: (args.text ++ ['>'])

/-- The name with the number of its arguments after a grave accent. -/
def counted (b : BaseName) (m : Nat) : List Char :=
  b.chars ++ '\x60' :: digits m

end BaseName

/-! ## Counting the arguments -/

/-- The text adds `k` commas where it stands in no angle brackets and none where it does. -/
def Adds (t : List Char) (k : Nat) : Prop :=
  ∀ depth rest, outerCommas depth (t ++ rest) = (if depth = 0 then k else 0) + outerCommas depth rest

theorem Adds.append {t u : List Char} {k l : Nat} (ht : Adds t k) (hu : Adds u l) : Adds (t ++ u) (k + l) := by
  intro depth rest
  rw [List.append_assoc, ht, hu]
  split <;> omega

theorem adds_nil : Adds [] 0 := by
  intro depth rest
  simp

theorem adds_cons {c : Char} {t : List Char} {k : Nat} (hc : c ≠ '<' ∧ c ≠ '>' ∧ c ≠ ',') (ht : Adds t k) :
    Adds (c :: t) k := by
  intro depth rest
  rw [List.cons_append, outerCommas, if_neg (by simp [hc]), if_neg (by simp [hc]), if_neg (by simp [hc]), ht]

theorem adds_comma {t : List Char} {k : Nat} (ht : Adds t k) : Adds (',' :: t) (k + 1) := by
  intro depth rest
  rw [List.cons_append, outerCommas, if_neg (by decide), if_neg (by decide), ht]
  by_cases hd : depth = 0
  · simp only [hd, BEq.rfl, Bool.and_self, if_true]
    omega
  · simp [hd]

theorem adds_of_forall {t : List Char} (h : ∀ c ∈ t, c ≠ '<' ∧ c ≠ '>' ∧ c ≠ ',') : Adds t 0 := by
  induction t with
  | nil => exact adds_nil
  | cons c t ih =>
    obtain ⟨hc, ht⟩ := List.forall_mem_cons.1 h
    exact adds_cons hc (ih ht)

theorem adds_commas (k : Nat) : Adds (List.replicate k ',') k := by
  induction k with
  | zero => exact adds_nil
  | succ k ih => exact adds_comma ih

theorem adds_separator (gap : Nat) : Adds (separator gap) 1 := by
  have hblanks : Adds (List.replicate gap ' ') 0 := by
    refine adds_of_forall fun c hc => ?_
    obtain rfl := List.eq_of_mem_replicate hc
    decide
  exact adds_comma hblanks

/-- Angle brackets hide the commas between them. -/
theorem Adds.inBrackets {t : List Char} {k : Nat} (ht : Adds t k) : Adds ('<' :: t ++ ['>']) 0 := by
  intro depth rest
  have hopen : outerCommas depth ('<' :: (t ++ '>' :: rest)) = outerCommas (depth + 1) (t ++ '>' :: rest) := rfl
  have hclose : outerCommas (depth + 1) ('>' :: rest) = outerCommas depth rest := rfl
  rw [List.append_assoc, List.cons_append, List.cons_append, List.nil_append, hopen, ht, hclose]
  simp

mutual

theorem TypeArg.adds (arg : TypeArg) : Adds arg.text arg.looseCommas := by
  cases arg with
  | name n => exact adds_of_forall n.ne
  | applied n args => exact (adds_of_forall n.ne).append args.adds.inBrackets
  | tuple first gap rest =>
    have hopen : Adds ['('] 0 := adds_cons (by decide) adds_nil
    have hclose : Adds [')'] 0 := adds_cons (by decide) adds_nil
    have h := (hopen.append (first.adds.append ((adds_separator gap).append rest.adds))).append hclose
    have hsum : (TypeArg.tuple first gap rest).looseCommas =
        0 + (first.looseCommas + (1 + (rest.further + rest.looseCommas))) + 0 := by
      rw [TypeArg.looseCommas, TypeArgs.count]
      omega
    rw [hsum]
    exact h
  | array element commas =>
    have hopen : Adds ['['] 0 := adds_cons (by decide) adds_nil
    have hclose : Adds [']'] 0 := adds_cons (by decide) adds_nil
    have h := element.adds.append ((hopen.append (adds_commas commas)).append hclose)
    rw [Nat.zero_add, Nat.add_zero] at h
    exact h

theorem TypeArgs.adds (args : TypeArgs) : Adds args.text (args.further + args.looseCommas) := by
  cases args with
  | one arg =>
    rw [TypeArgs.further, Nat.zero_add]
    exact arg.adds
  | more arg gap rest =>
    have h := arg.adds.append ((adds_separator gap).append rest.adds)
    have hsum : (TypeArgs.more arg gap rest).further + (TypeArgs.more arg gap rest).looseCommas =
        arg.looseCommas + (1 + (rest.further + rest.looseCommas)) := by
      rw [TypeArgs.further, TypeArgs.looseCommas]
      omega
    rw [hsum]
    exact h

end

theorem TypeArg.looseCommas_of_isNominal {arg : TypeArg} (h : arg.isNominal = true) : arg.looseCommas = 0 := by
  cases arg with
  | name n => rfl
  | applied n args => rfl
  | tuple first gap rest => exact absurd h (by simp [TypeArg.isNominal])
  | array element commas => exact absurd h (by simp [TypeArg.isNominal])

theorem TypeArgs.looseCommas_of_isNominal (args : TypeArgs) (h : args.isNominal = true) :
    args.looseCommas = 0 := by
  cases args with
  | one arg => exact TypeArg.looseCommas_of_isNominal h
  | more arg gap rest =>
    obtain ⟨harg, hrest⟩ := Bool.and_eq_true_iff.1 h
    rw [TypeArgs.looseCommas, TypeArg.looseCommas_of_isNominal harg, rest.looseCommas_of_isNominal hrest]

/-! ## Reading the spellings -/

theorem dropGlobal_marks (k : Nat) {cs : List Char} (h : globalMark.isPrefixOf cs = false) :
    dropGlobal ((List.replicate k globalMark).flatten ++ cs) = cs := by
  induction k with
  | zero => exact dropGlobal_of_not_isPrefixOf h
  | succ k ih =>
    have hmark : globalMark.isPrefixOf (globalMark ++ ((List.replicate k globalMark).flatten ++ cs)) = true :=
      List.isPrefixOf_iff_prefix.2 (List.prefix_append _ _)
    rw [List.replicate_succ, List.flatten_cons, List.append_assoc, dropGlobal_of_isPrefixOf hmark,
      List.drop_left, ih]

theorem isBlank_of_mem_marks {k : Nat} {c : Char} (h : c ∈ (List.replicate k globalMark).flatten) :
    isBlank c = false := by
  have hmark : globalMark.all (fun c => !isBlank c) = true := by decide
  obtain ⟨mark, hm, hc⟩ := List.mem_flatten.1 h
  rw [List.eq_of_mem_replicate hm] at hc
  have hblank := List.all_eq_true.1 hmark c hc
  rwa [Bool.not_eq_true'] at hblank

/-- A text within a frame is cut as it is without one. -/
theorem Frame.parse_around (f : Frame) {cs : List Char} (hmark : globalMark.isPrefixOf cs = false)
    (hfirst : ∀ c ∈ cs.head?, isBlank c = false) (hlast : ∀ c ∈ cs.getLast?, isBlank c = false) :
    parse (f.around cs) = ofChars cs := by
  have htrim : trim (f.before ++ ((List.replicate f.marks globalMark).flatten ++ cs) ++ f.after) =
      (List.replicate f.marks globalMark).flatten ++ cs := by
    refine Text.trim_around _ _ f.before_isBlank f.after_isBlank ?_ ?_
    · intro c hc
      rw [List.head?_append, Option.mem_def, Option.or_eq_some_iff] at hc
      rcases hc with hc | ⟨-, hc⟩
      · exact isBlank_of_mem_marks (List.mem_of_head? hc)
      · exact hfirst c hc
    · intro c hc
      rw [List.getLast?_append, Option.mem_def, Option.or_eq_some_iff] at hc
      rcases hc with hc | ⟨-, hc⟩
      · exact hlast c hc
      · exact isBlank_of_mem_marks (List.mem_of_getLast? hc)
  rw [parse, Frame.around, String.toList_ofList, htrim, dropGlobal_marks _ hmark]

/-- A name with something behind it starts as no mark and no blank does, and ends as what is behind it. -/
theorem BaseName.ends_append (b : BaseName) {a : Char} (cs : List Char) (hmark : a ∉ globalMark)
    (ha : isBlank a = false) (hlast : ∀ c ∈ (a :: cs).getLast?, isBlank c = false) :
    globalMark.isPrefixOf (b.chars ++ a :: cs) = false ∧ (∀ c ∈ (b.chars ++ a :: cs).head?, isBlank c = false) ∧
      ∀ c ∈ (b.chars ++ a :: cs).getLast?, isBlank c = false := by
  refine ⟨by rw [isPrefixOf_append_cons hmark, b.no_mark], ?_, ?_⟩
  · intro c hc
    rw [List.head?_append, Option.mem_def, Option.or_eq_some_iff] at hc
    rcases hc with hc | ⟨-, hc⟩
    · exact b.first_ne c hc
    · obtain rfl := Option.some.inj hc
      exact ha
  · intro c hc
    rw [List.getLast?_append, Option.mem_def, Option.or_eq_some_iff] at hc
    rcases hc with hc | ⟨hnone, -⟩
    · exact hlast c hc
    · exact absurd (List.getLast?_eq_none_iff.1 hnone) (List.cons_ne_nil a cs)

/-- The argument list of a name counts its arguments and the loose commas in them. -/
theorem BaseName.parse_applied (b : BaseName) (f : Frame) (args : TypeArgs) :
    parse (f.around (b.applied args)) = { base := b.name, arity := args.count + args.looseCommas } := by
  have hlast : ∀ c ∈ ('<' :: (args.text ++ ['>'])).getLast?, isBlank c = false := by
    intro c hc
    rw [← List.cons_append, List.getLast?_concat] at hc
    obtain rfl := Option.some.inj hc
    decide
  obtain ⟨hmark, hfirst, hlast⟩ := b.ends_append (args.text ++ ['>']) (by decide) (by decide) hlast
  have hcommas : outerCommas 0 (args.text ++ ['>']) = args.further + args.looseCommas := args.adds 0 ['>']
  rw [BaseName.applied, f.parse_around hmark hfirst hlast, ofChars_bracketed b.no_bracket, hcommas,
    Text.trimEnd_of_getLast? b.last_ne, TypeArgs.count, Nat.add_right_comm]
  rfl

theorem natural?_digits {m : Nat} (h : m < wordLimit) : natural? (digits m) = some m := by
  obtain ⟨d, ds, hd, -, -⟩ := Text.exists_digits_eq m
  have hempty : (digits m).isEmpty = false := by
    rw [hd]
    rfl
  rw [natural?, hempty, List.all_eq_true.2 (Text.forall_mem_digits m), Text.ofDigits_digits]
  simp [h]

theorem count?_digits {m : Nat} (h : m < wordLimit) : count? (digits m) = some m := by
  obtain ⟨d, ds, hd, hdigit, -⟩ := Text.exists_digits_eq m
  rw [← natural?_digits h]
  unfold count?
  split
  · next he =>
    rw [hd] at he
    obtain ⟨rfl, -⟩ := List.cons.inj he
    exact absurd hdigit (by decide)
  · rfl

theorem splitAccent?_append (cs : List Char) {ds : List Char} (h : '\x60' ∉ ds) :
    splitAccent? (cs ++ '\x60' :: ds) = some (cs, ds) := by
  have hcount : ((cs ++ '\x60' :: ds).reverse.takeWhile (· != '\x60')).reverse = ds := by
    rw [List.reverse_append, List.reverse_cons, List.append_assoc, List.singleton_append,
      (takeWhile_ne_append (by simpa using h) _).1, List.reverse_reverse]
  have hlength : (cs ++ '\x60' :: ds).length - ds.length - 1 = cs.length := by
    simp only [List.length_append, List.length_cons]
    omega
  have hlt : ds.length < (cs ++ '\x60' :: ds).length := by
    simp only [List.length_append, List.length_cons]
    omega
  rw [splitAccent?, hcount, hlength, List.take_left, if_pos hlt]

theorem splitAccent?_of_notMem {cs : List Char} (h : '\x60' ∉ cs) : splitAccent? cs = none := by
  have hcount : (cs.reverse.takeWhile (· != '\x60')).reverse = cs := by
    rw [List.takeWhile_eq_self_iff.2, List.reverse_reverse]
    intro c hc
    exact bne_iff_ne.2 fun he => h (he ▸ List.mem_reverse.1 hc)
  rw [splitAccent?, hcount, if_neg (Nat.lt_irrefl _)]

theorem isBlank_of_isDigit {c : Char} (h : c.isDigit = true) : isBlank c = false := by
  obtain ⟨hlow, hhigh⟩ := Bool.and_eq_true_iff.1 h
  have hlow : 48 ≤ c.toNat := of_decide_eq_true hlow
  have hhigh : c.toNat ≤ 57 := of_decide_eq_true hhigh
  simp only [isBlank, Bool.or_eq_false_iff, Bool.and_eq_false_iff, decide_eq_false_iff_not, beq_eq_false_iff_ne]
  omega

theorem BaseName.parse_counted (b : BaseName) (f : Frame) {m : Nat} (h : m < wordLimit) :
    parse (f.around (b.counted m)) = { base := b.name, arity := m } := by
  have hdigit := Text.forall_mem_digits m
  have hlast : ∀ c ∈ ('\x60' :: digits m).getLast?, isBlank c = false := by
    intro c hc
    rcases List.mem_cons.1 (List.mem_of_getLast? hc) with rfl | hc
    · decide
    · exact isBlank_of_isDigit (hdigit c hc)
  obtain ⟨hmark, hfirst, hlast⟩ := b.ends_append (digits m) (by decide) (by decide) hlast
  have hbracket : '<' ∉ b.chars ++ '\x60' :: digits m := by
    intro hmem
    rcases List.mem_append.1 hmem with hmem | hmem
    · exact b.no_bracket hmem
    · rcases List.mem_cons.1 hmem with hmem | hmem
      · exact absurd hmem (by decide)
      · exact absurd (hdigit _ hmem) (by decide)
  have haccent : '\x60' ∉ digits m := fun hmem => absurd (hdigit _ hmem) (by decide)
  rw [BaseName.counted, f.parse_around hmark hfirst hlast, ofChars, if_neg (by simpa using hbracket),
    splitAccent?_append _ haccent]
  simp only [count?_digits h]
  rfl

theorem BaseName.parse_chars (b : BaseName) (f : Frame) :
    parse (f.around b.chars) = { base := b.name, arity := 0 } := by
  rw [f.parse_around b.no_mark b.first_ne b.last_ne, ofChars, if_neg (by simpa using b.no_bracket),
    splitAccent?_of_notMem b.no_accent]
  rfl

end GenericName

open GenericName

/-- With arguments that are built by application alone, both spellings give the name and the number of its
arguments, whatever stands around them, and a name without arguments gives itself; so every registry takes the
two spellings for the same interface. -/
theorem spellings_agree (b : BaseName) (f : Frame) (args : TypeArgs) (h : args.isNominal = true) :
    parse (f.around (b.applied args)) = { base := b.name, arity := args.count } ∧
    (∀ m < wordLimit, parse (f.around (b.counted m)) = { base := b.name, arity := m }) ∧
    parse (f.around b.chars) = { base := b.name, arity := 0 } ∧
    (args.count < wordLimit → ∀ (r : Registry) (g : Frame),
      r.capabilitiesOf (f.around (b.applied args)) = r.capabilitiesOf (g.around (b.counted args.count))) := by
  have happlied : parse (f.around (b.applied args)) = { base := b.name, arity := args.count } := by
    rw [b.parse_applied f args, args.looseCommas_of_isNominal h, Nat.add_zero]
  refine ⟨happlied, fun m hm => b.parse_counted f hm, b.parse_chars f, ?_⟩
  intro hcount r g
  exact r.capabilitiesOf_of_parse_eq (happlied.trans (b.parse_counted g hcount).symm)

/-- An open argument, and an argument with arguments of its own at the end. -/
def dictionaryArgs : TypeArgs :=
  .more (.name ⟨[], nofun⟩) 0 (.one (.applied ⟨"Map".toList, by simp⟩
    (.more (.name ⟨"K".toList, by simp⟩) 1 (.one (.name ⟨"V".toList, by simp⟩)))))

def lookupName : BaseName :=
  ⟨"Ns.ILookup".toList, by decide, by decide, by decide, by simp [isBlank], by simp [isBlank]⟩

theorem spellings_agree_lookup :
    dictionaryArgs.isNominal = true ∧ 2 < wordLimit ∧
    parse " global::global::Ns.ILookup<,Map<K, V>>\u3000" = { base := "Ns.ILookup", arity := 2 } ∧
    ∀ r : Registry, r.capabilitiesOf " global::global::Ns.ILookup<,Map<K, V>>\u3000" =
      r.capabilitiesOf "Ns.ILookup\x602" := by
  have hnominal : dictionaryArgs.isNominal = true := by decide
  have hcount : 2 < wordLimit := by decide
  let f : Frame := ⟨[' '], 2, ['\u3000'], List.all_eq_true.1 rfl, List.all_eq_true.1 rfl⟩
  let g : Frame := ⟨[], 0, [], nofun, nofun⟩
  obtain ⟨happlied, -, -, hsame⟩ := spellings_agree lookupName f dictionaryArgs hnominal
  have hname : f.around (lookupName.applied dictionaryArgs) = " global::global::Ns.ILookup<,Map<K, V>>\u3000" := by
    decide +kernel
  have hspelled : g.around (lookupName.counted 2) = "Ns.ILookup\x602" := by decide +kernel
  rw [hname] at happlied hsame
  refine ⟨hnominal, hcount, happlied.trans (by decide +kernel), fun r => ?_⟩
  rw [← hspelled]
  exact hsame hcount r g

/-- Each argument counts as one, and so does the whole name for every registry, exactly if no tuple and no rank of
an array in the arguments has a comma outside angle brackets; the number that is read is too large by the number
of those commas. -/
theorem tuples_add_commas (b : BaseName) (f : Frame) (args : TypeArgs) :
    parse (f.around (b.applied args)) = { base := b.name, arity := args.count + args.looseCommas } ∧
    (parse (f.around (b.applied args)) = { base := b.name, arity := args.count } ↔ args.looseCommas = 0) ∧
    (args.count < wordLimit → ((∀ r : Registry, r.capabilitiesOf (f.around (b.applied args)) =
      r.capabilitiesOf (f.around (b.counted args.count))) ↔ args.looseCommas = 0)) := by
  have happlied := b.parse_applied f args
  have hiff : parse (f.around (b.applied args)) = { base := b.name, arity := args.count } ↔
      args.looseCommas = 0 := by
    rw [happlied, GenericName.mk.injEq]
    constructor
    · rintro ⟨-, harity⟩
      omega
    · intro h
      exact ⟨rfl, by omega⟩
  refine ⟨happlied, hiff, ?_⟩
  intro hcount
  have hcounted := b.parse_counted f hcount
  constructor
  · intro hsame
    -- a marker that asks for the number of arguments tells the two spellings apart
    have hgrants : Capability.result ∈ Registry.capabilitiesOf
        ⟨[{ name := b.name, arity := some args.count, capabilities := [.result] }]⟩
        (f.around (b.counted args.count)) := by
      rw [Registry.mem_capabilitiesOf, Registry.Grants, hcounted]
      exact ⟨_, List.mem_singleton_self _, rfl, fun n hn => (Option.some.inj hn).symm, List.mem_singleton_self _⟩
    rw [← hsame, Registry.mem_capabilitiesOf, Registry.Grants, happlied] at hgrants
    obtain ⟨m, hm, -, harity, -⟩ := hgrants
    obtain rfl := List.mem_singleton.1 hm
    have hcommas : args.count = args.count + args.looseCommas := harity _ rfl
    omega
  · intro h r
    exact r.capabilitiesOf_of_parse_eq ((hiff.2 h).trans hcounted.symm)

/-- `Acme.IOutcome`. -/
def outcomeName : BaseName :=
  ⟨"Acme.IOutcome".toList, by decide, by decide, by decide, by simp [isBlank], by simp [isBlank]⟩

def pairArg : TypeArg :=
  .tuple (.name ⟨"int".toList, by simp⟩) 1 (.one (.name ⟨"string".toList, by simp⟩))

/-- A pair in angle brackets of its own, in an array of rank one, adds nothing. -/
theorem tuples_add_commas_list :
    1 < wordLimit ∧ parse "Acme.IOutcome<List<(int, string)>[]>" = { base := "Acme.IOutcome", arity := 1 } ∧
    ∀ r : Registry, r.capabilitiesOf "Acme.IOutcome<List<(int, string)>[]>" =
      r.capabilitiesOf "Acme.IOutcome\x601" := by
  have hcount : 1 < wordLimit := by decide
  let args : TypeArgs := .one (.array (.applied ⟨"List".toList, by simp⟩ (.one pairArg)) 0)
  let f : Frame := ⟨[], 0, [], nofun, nofun⟩
  obtain ⟨-, hparse, hsame⟩ := tuples_add_commas outcomeName f args
  have happlied : f.around (outcomeName.applied args) = "Acme.IOutcome<List<(int, string)>[]>" := by decide +kernel
  have hcounted : f.around (outcomeName.counted args.count) = "Acme.IOutcome\x601" := by decide +kernel
  rw [happlied] at hparse hsame
  rw [hcounted] at hsame
  exact ⟨hcount, (hparse.2 rfl).trans (by decide +kernel), (hsame hcount).2 rfl⟩

/-- A pair counts as two arguments. -/
theorem pair_counts_twice :
    ¬ ∀ (b : BaseName) (args : TypeArgs), args.isNominal = false →
      parse (String.ofList (b.applied args)) = { base := b.name, arity := args.count } := by
  intro h
  let f : Frame := ⟨[], 0, [], nofun, nofun⟩
  have hplain : f.around (outcomeName.applied (.one pairArg)) = String.ofList (outcomeName.applied (.one pairArg)) := by
    decide +kernel
  have hparse := h outcomeName (.one pairArg) rfl
  rw [← hplain, outcomeName.parse_applied] at hparse
  exact absurd (congrArg GenericName.arity hparse) (by decide)

end TypeDoctrine
