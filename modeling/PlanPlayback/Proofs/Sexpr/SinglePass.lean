import PlanPlayback.Proofs.Sexpr.Lexing

/-!
# Tokens in a single pass

`Token.tokenize` looks at a text as a whole: it sets the parentheses apart, one kind after the other
(`Token.setApart_eq_padded`), and splits the result at blank space.  `Token.scan` reads a text once,
character by character.  It holds the characters of the atom that it is in, and gives the atom away
where another character follows or the text ends, so that every atom is as long as it can be.  Both
find the same tokens.

## Strategy

An atom ends where a character follows that is not plain.  At such a place a text may be cut, and the
tokens of its two parts are its tokens (`Token.tokensOf_append_of_delimited`).  The scanner cuts a
text at every character that is not plain, and blank space is where two texts may always be joined.
Between two plain characters there is no such place: the cut would go through an atom and make two of
it (`Token.length_tokensOf_append`).
-/

namespace PlanPlayback.Token

/-- A text with blank space on both sides of every occurrence of a character. -/
def padded (mark : Char) (text : List Char) : List Char :=
  text.flatMap fun c => if c = mark then [' ', c, ' '] else [c]

/-- The parentheses are set apart one kind after the other. -/
theorem setApart_eq_padded (text : List Char) : setApart text = padded ')' (padded '(' text) := by
  have hcharacter (c : Char) : setApart [c] = padded ')' (padded '(' [c]) := by
    by_cases hopening : c = '('
    · subst hopening
      rfl
    · by_cases hclosing : c = ')'
      · subst hclosing
        rfl
      · simp [setApart, padded, hopening, hclosing]
  induction text with
  | nil => rfl
  | cons c rest ih =>
    calc setApart (c :: rest) = setApart [c] ++ setApart rest := by simp [setApart]
      _ = padded ')' (padded '(' [c]) ++ padded ')' (padded '(' rest) := by rw [hcharacter, ih]
      _ = padded ')' (padded '(' (c :: rest)) := by simp [padded]

/-! ## Where a text may be cut -/

/-- A text that ends with no character of an atom. -/
def EndsDelimited (text : List Char) : Prop :=
  ∀ c ∈ text.getLast?, isPlain c = false

theorem EndsDelimited.of_append {front text : List Char} (h : EndsDelimited (front ++ text)) :
    EndsDelimited text := by
  intro c hc
  refine h c ?_
  rw [Option.mem_def] at hc ⊢
  rw [List.getLast?_append, hc, Option.some_or]

theorem IsWord.not_endsDelimited {run : List Char} (h : IsWord run) : ¬EndsDelimited run := by
  intro hends
  have hlast : run.getLast h.1 ∈ run.getLast? := List.getLast?_eq_some_getLast h.1
  have hplain := h.2 _ (List.getLast_mem h.1)
  rw [hends _ hlast] at hplain
  cases hplain

theorem isDelimited_append {rest behind : List Char} (hrest : IsDelimited rest)
    (hbehind : rest = [] → IsDelimited behind) : IsDelimited (rest ++ behind) := by
  cases rest with
  | nil => exact hbehind rfl
  | cons c rest => exact isDelimited_cons (hrest c rfl)

/-- **A text is cut beside a character that is not plain.** -/
theorem tokensOf_append_of_delimited {text behind : List Char}
    (h : EndsDelimited text ∨ IsDelimited behind) :
    tokensOf (text ++ behind) = tokensOf text ++ tokensOf behind := by
  induction text using lexing_induction with
  | nil => rfl
  | blank c rest hc ih =>
    have hrest : EndsDelimited rest ∨ IsDelimited behind :=
      h.imp_left (@EndsDelimited.of_append [c] rest)
    rw [List.cons_append, tokensOf_cons_of_isBlank hc, tokensOf_cons_of_isBlank hc, ih hrest]
  | paren c rest hc ih =>
    have hrest : EndsDelimited rest ∨ IsDelimited behind :=
      h.imp_left (@EndsDelimited.of_append [c] rest)
    rw [List.cons_append, tokensOf_cons_of_paren hc, tokensOf_cons_of_paren hc, ih hrest,
      List.cons_append]
  | word run rest hrun hrest ih =>
    -- a word that the text ends with does not end delimited, so that what is behind it does
    have hbehind : rest = [] → IsDelimited behind := by
      rintro rfl
      rw [List.append_nil] at h
      exact h.resolve_left hrun.not_endsDelimited
    rw [List.append_assoc, tokensOf_append hrun (isDelimited_append hrest hbehind),
      tokensOf_append hrun hrest, ih (h.imp_left EndsDelimited.of_append), List.cons_append]

theorem tokensOf_run {run : List Char} (hrun : IsWord run) :
    tokensOf run = [.atom (String.ofList run)] := by
  simpa using tokensOf_append hrun isDelimited_nil

/-- A text that begins with a character of an atom begins with a word. -/
theorem exists_word_append {text : List Char} (h : ¬IsDelimited text) :
    ∃ run rest, IsWord run ∧ IsDelimited rest ∧ text = run ++ rest := by
  induction text using lexing_induction with
  | nil => exact absurd isDelimited_nil h
  | blank c rest hc _ =>
    have hplain : isPlain c = false := by simp [isPlain, hc]
    exact absurd (isDelimited_cons hplain) h
  | paren c rest hc _ =>
    have hplain : isPlain c = false := by rcases hc with rfl | rfl <;> decide
    exact absurd (isDelimited_cons hplain) h
  | word run rest hrun hrest _ => exact ⟨run, rest, hrun, hrest, rfl⟩

/-- A text that ends with a character of an atom ends with a word. -/
theorem exists_append_word {text : List Char} (h : ¬EndsDelimited text) :
    ∃ front run, EndsDelimited front ∧ IsWord run ∧ text = front ++ run := by
  have hreverse : ¬IsDelimited text.reverse := by
    rwa [IsDelimited, List.head?_reverse]
  obtain ⟨run, rest, hrun, hrest, htext⟩ := exists_word_append hreverse
  refine ⟨rest.reverse, run.reverse, ?_, ?_, ?_⟩
  · rwa [EndsDelimited, List.getLast?_reverse]
  · exact ⟨mt List.reverse_eq_nil_iff.mp hrun.1, fun c hc => hrun.2 c (List.mem_reverse.mp hc)⟩
  · rw [← List.reverse_append, ← htext, List.reverse_reverse]

/-- A cut between two plain characters makes two atoms of one. -/
theorem length_tokensOf_append {text behind : List Char} (htext : ¬EndsDelimited text)
    (hbehind : ¬IsDelimited behind) :
    (tokensOf (text ++ behind)).length + 1 = (tokensOf text).length + (tokensOf behind).length := by
  obtain ⟨front, run, hfront, hrun, rfl⟩ := exists_append_word htext
  obtain ⟨word, rest, hword, hrest, rfl⟩ := exists_word_append hbehind
  have hjoined : IsWord (run ++ word) := by
    refine ⟨List.append_ne_nil_of_left_ne_nil hrun.1 word, fun c hc => ?_⟩
    exact (List.mem_append.mp hc).elim (hrun.2 c) (hword.2 c)
  have htogether : tokensOf (front ++ run ++ (word ++ rest)) =
      tokensOf front ++ .atom (String.ofList (run ++ word)) :: tokensOf rest := by
    rw [List.append_assoc, tokensOf_append_of_delimited (.inl hfront), ← List.append_assoc,
      tokensOf_append hjoined hrest]
  have hfirst : tokensOf (front ++ run) = tokensOf front ++ [.atom (String.ofList run)] := by
    rw [tokensOf_append_of_delimited (.inl hfront), tokensOf_run hrun]
  rw [htogether, hfirst, tokensOf_append hword hrest]
  simp only [List.length_append, List.length_cons, List.length_nil]
  omega

/-- Two texts may be joined exactly where no atom runs over the place. -/
theorem tokensOf_append_eq_iff {text behind : List Char} :
    tokensOf (text ++ behind) = tokensOf text ++ tokensOf behind ↔
      EndsDelimited text ∨ IsDelimited behind := by
  constructor
  · intro heq
    by_contra hplain
    obtain ⟨htext, hbehind⟩ := not_or.mp hplain
    have hlength := length_tokensOf_append htext hbehind
    rw [heq, List.length_append] at hlength
    omega
  · exact tokensOf_append_of_delimited

/-! ## The scanner -/

/-- The atom with the given characters, if there are any. -/
def ofRun (run : List Char) : List Token :=
  if run.isEmpty then [] else [.atom (String.ofList run)]

/-- The tokens that are found character by character, where `run` has been read of an atom. -/
def scan (run : List Char) : List Char → List Token
  | [] => ofRun run
  | c :: rest =>
      if c = '(' then ofRun run ++ .opening :: scan [] rest
      else if c = ')' then ofRun run ++ .closing :: scan [] rest
      else if Text.isBlank c then ofRun run ++ scan [] rest
      else scan (run ++ [c]) rest

theorem ofRun_eq {run : List Char} (hrun : ∀ c ∈ run, isPlain c = true) :
    ofRun run = tokensOf run := by
  by_cases hne : run = []
  · subst hne
    rfl
  · rw [tokensOf_run ⟨hne, hrun⟩, ofRun, if_neg (by simpa using hne)]

/-- The scanner finds the tokens of what it has read of an atom and of what it reads next. -/
theorem scan_eq {run : List Char} (hrun : ∀ c ∈ run, isPlain c = true) (text : List Char) :
    scan run text = tokensOf (run ++ text) := by
  induction text generalizing run with
  | nil => rw [scan, List.append_nil, ofRun_eq hrun]
  | cons c rest ih =>
    have hnext : scan [] rest = tokensOf rest := ih (by simp)
    have hcut (hc : isPlain c = false) :
        tokensOf (run ++ c :: rest) = ofRun run ++ tokensOf (c :: rest) := by
      rw [tokensOf_append_of_delimited (.inr (isDelimited_cons hc)), ofRun_eq hrun]
    rw [scan]
    split_ifs with hopening hclosing hblank
    · subst hopening
      rw [hcut (by decide), tokensOf_cons_opening, hnext]
    · subst hclosing
      rw [hcut (by decide), tokensOf_cons_closing, hnext]
    · rw [hcut (by simp [isPlain, hblank]), tokensOf_cons_of_isBlank hblank, hnext]
    · have hplain : isPlain c = true := isPlain_iff.mpr ⟨by simpa using hblank, hopening, hclosing⟩
      have hlonger : ∀ d ∈ run ++ [c], isPlain d = true := by
        simpa [or_imp, forall_and] using ⟨hrun, hplain⟩
      rw [ih hlonger, List.append_assoc, List.singleton_append]

theorem tokensOf_blanks_append {separator : List Char}
    (hblank : ∀ c ∈ separator, Text.isBlank c = true) (behind : List Char) :
    tokensOf (separator ++ behind) = tokensOf behind := by
  induction separator with
  | nil => rfl
  | cons c rest ih =>
    rw [List.cons_append, tokensOf_cons_of_isBlank (hblank c List.mem_cons_self)]
    exact ih fun d hd => hblank d (List.mem_cons_of_mem c hd)

theorem tokensOf_append_separator {separator : List Char} (hne : separator ≠ [])
    (hblank : ∀ c ∈ separator, Text.isBlank c = true) (text behind : List Char) :
    tokensOf (text ++ (separator ++ behind)) = tokensOf text ++ tokensOf behind := by
  have hdelimited : IsDelimited (separator ++ behind) := by
    obtain ⟨c, rest, rfl⟩ := List.exists_cons_of_ne_nil hne
    exact isDelimited_cons (by simp [isPlain, hblank c List.mem_cons_self])
  rw [tokensOf_append_of_delimited (.inr hdelimited), tokensOf_blanks_append hblank]

/-- **Tokens are found in a single pass.**  Blank space is put around the opening and then around the
closing parentheses, and the words of the result are the tokens; but a scanner that reads the text
once, character by character, finds the same.  So every atom is a word without blank space or
parentheses.  Where blank space stands between two texts, their tokens are found apart; and where
nothing does, they are exactly if no atom runs from the one into the other. -/
theorem tokens_found_in_one_pass :
    (∀ text : String,
      tokenize text = (Text.words (padded ')' (padded '(' text.toList))).map ofWord ∧
      tokenize text = scan [] text.toList) ∧
    (∀ (text word : String), .atom word ∈ tokenize text →
      word ≠ "" ∧ ∀ c ∈ word.toList, Text.isBlank c = false ∧ c ≠ '(' ∧ c ≠ ')') ∧
    (∀ text separator behind : String, separator ≠ "" →
      (∀ c ∈ separator.toList, Text.isBlank c = true) →
      tokenize (text ++ separator ++ behind) = tokenize text ++ tokenize behind) ∧
    ∀ text behind : String, tokenize (text ++ behind) = tokenize text ++ tokenize behind ↔
      EndsDelimited text.toList ∨ IsDelimited behind.toList := by
  refine ⟨?_, ?_, ?_, ?_⟩
  · intro text
    constructor
    · rw [tokenize, setApart_eq_padded]
    · exact (@scan_eq [] (by simp) text.toList).symm
  · intro text word hword
    have hrun : IsWord word.toList := isWord_of_mem_tokensOf hword
    exact ⟨by simpa using hrun.1, fun c hc => isPlain_iff.mp (hrun.2 c hc)⟩
  · intro text separator behind hne hblank
    rw [tokenize_eq, String.toList_append, String.toList_append, List.append_assoc]
    exact tokensOf_append_separator (by simpa using hne) hblank _ _
  · intro text behind
    rw [tokenize_eq, String.toList_append]
    exact tokensOf_append_eq_iff

/-- Ideographic blank space separates, and without it an atom runs over the place. -/
theorem dock_found_in_one_pass :
    (.atom "dock" ∈ tokenize "(dock(" ∧
      "dock" ≠ "" ∧ ∀ c ∈ "dock".toList, Text.isBlank c = false ∧ c ≠ '(' ∧ c ≠ ')') ∧
    ("\u3000\t" ≠ "" ∧ (∀ c ∈ "\u3000\t".toList, Text.isBlank c = true) ∧
      tokenize "(dock\u3000\tship)" = [.opening, .atom "dock"] ++ [.atom "ship", .closing]) ∧
    tokenize ("(dock" ++ "ship)") ≠ tokenize "(dock" ++ tokenize "ship)" := by
  obtain ⟨-, hword, hseparator, hjoin⟩ := tokens_found_in_one_pass
  have hmem : .atom "dock" ∈ tokenize "(dock(" := by decide +kernel
  have hne : "\u3000\t" ≠ "" := by decide
  have hall : "\u3000\t".toList.all Text.isBlank = true := by decide
  have hblank : ∀ c ∈ "\u3000\t".toList, Text.isBlank c = true := List.all_eq_true.mp hall
  refine ⟨⟨hmem, hword _ _ hmem⟩, ⟨hne, hblank, ?_⟩, ?_⟩
  · have hfront : tokenize "(dock" = [.opening, .atom "dock"] := by decide +kernel
    have hbehind : tokenize "ship)" = [.atom "ship", .closing] := by decide +kernel
    have hapart := hseparator "(dock" "\u3000\t" "ship)" hne hblank
    rwa [hfront, hbehind] at hapart
  · rw [Ne, hjoin]
    rintro (hends | hbegins)
    · exact absurd (hends 'k' rfl) (by decide)
    · exact absurd (hbegins 's' rfl) (by decide)

end PlanPlayback.Token
