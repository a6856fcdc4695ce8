import Mathlib.Data.List.DropRight
import PlanPlayback.Proofs.Playback.FluentRange
import PlanPlayback.Proofs.Playback.StoreView
import PlanPlayback.Proofs.Text.Words

/-!
# Ground fluents and their keys

A store knows a ground fluent by its key alone: a text that is written from the name of the function
and the arguments, and from which the category, the range and the owner of the fluent are told.  So
a key must say what it was written from.

* `keyParts_groundKey_iff`: exactly the legible ground fluents are read back from their keys;
* `IsLegible.groundKey_inj`: different ones of them have different keys;
* `IsLegible.ofKey_groundKey`: what is told from the key of a fluent is told from its parts;
* `Store.get?_ofProblem`: under a key stands the last initial value that is stated for it.

Names of functions and objects are words without parentheses and commas, and ground fluents over
such words are legible (`isLegible_of_words`).

## Strategy

A key is read in four steps: what is in front of the first opening parenthesis is the name, closing
parentheses at the end are dropped, the rest is cut at its commas, and the parts are cleaned
(`cleaned`).  If the name has no opening parenthesis, the first step finds the one that `groundKey`
has written.  Behind the joined arguments stand the closing parentheses that the last argument ends
with and the one of the key, and all of them are dropped.  So no other argument than the last one
loses parentheses, and the arguments that are read are known (`keyParts_groundKey_concat`).
-/

namespace PlanPlayback

/-! ## The steps of reading a key -/

theorem splitAt_eq_splitOn (separator : Char) (text : List Char) :
    splitAt separator text = text.splitOn separator := by
  induction text with
  | nil => rfl
  | cons c rest ih =>
    rw [List.splitOn_eq_splitOnP] at ih
    rw [splitAt, List.splitOn_eq_splitOnP, List.splitOnP_cons_eq_if_modifyHead, ih]
    by_cases hc : c = separator
    · rw [if_pos hc, if_pos (beq_iff_eq.mpr hc)]
    · rw [if_neg hc, if_neg (mt beq_iff_eq.mp hc)]
      cases hparts : rest.splitOnP (· == separator) with
      | nil => exact absurd hparts (List.splitOnP_ne_nil _ _)
      | cons part others => rfl

theorem not_mem_of_mem_splitAt {separator : Char} {text part : List Char}
    (h : part ∈ splitAt separator text) : separator ∉ part := by
  induction text generalizing part with
  | nil =>
    obtain rfl : part = [] := List.mem_singleton.mp h
    exact List.not_mem_nil
  | cons c rest ih =>
    rw [splitAt] at h
    split_ifs at h with hc
    · rcases List.mem_cons.mp h with rfl | hrest
      · exact List.not_mem_nil
      · exact ih hrest
    · -- the first part is longer by a character that does not separate
      have hfirst : separator ≠ c := Ne.symm hc
      cases hparts : splitAt separator rest with
      | nil => simp_all
      | cons first others =>
        rw [hparts] at h ih
        rcases List.mem_cons.mp h with rfl | hothers
        · simpa [hfirst] using ih List.mem_cons_self
        · exact ih (List.mem_cons_of_mem first hothers)

theorem dropClosing_concat (text : List Char) (c : Char) :
    dropClosing (text ++ [c]) = if c = ')' then dropClosing text else text ++ [c] := by
  have h := List.rdropWhile_concat (· == ')') text c
  simp only [beq_iff_eq] at h
  exact h

theorem isPrefix_dropClosing (text : List Char) : dropClosing text <+: text :=
  List.rdropWhile_prefix _ text

theorem dropClosing_eq_self {text : List Char} (h : ')' ∉ text.getLast?) :
    dropClosing text = text := by
  refine List.rdropWhile_eq_self_iff.mpr fun hne hlast => h ?_
  rw [Option.mem_def, List.getLast?_eq_some_getLast hne, beq_iff_eq.mp hlast]

/-- What stands in front of another character than a closing parenthesis is not touched. -/
theorem dropClosing_append {front : List Char} (hfront : ')' ∉ front.getLast?) (text : List Char) :
    dropClosing (front ++ text) = front ++ dropClosing text := by
  induction text using List.reverseRecOn with
  | nil =>
    rw [List.append_nil, dropClosing_eq_self hfront]
    exact (List.append_nil front).symm
  | append_singleton text c ih =>
    rw [← List.append_assoc, dropClosing_concat, dropClosing_concat, ih]
    split_ifs
    · rfl
    · rw [List.append_assoc]

/-- Closing parentheses at the end of joined texts belong to the last of them. -/
theorem dropClosing_intercalate (front : List (List Char)) (last : List Char) :
    dropClosing ([','].intercalate (front ++ [last])) =
      [','].intercalate (front ++ [dropClosing last]) := by
  induction front with
  | nil => simp
  | cons first rest ih =>
    have hjoin (text : List Char) : [','].intercalate (first :: (rest ++ [text])) =
        (first ++ [',']) ++ [','].intercalate (rest ++ [text]) := by
      cases rest <;> simp
    rw [List.cons_append, List.cons_append, hjoin, hjoin, dropClosing_append (by simp), ih]

/-- The arguments in the parts of a text: without blank space at their ends, if anything is left. -/
def cleaned (parts : List (List Char)) : List String :=
  ((parts.map Text.trim).filter fun part => !part.isEmpty).map String.ofList

theorem cleaned_append (front behind : List (List Char)) :
    cleaned (front ++ behind) = cleaned front ++ cleaned behind := by
  simp [cleaned]

theorem mem_cleaned {parts : List (List Char)} {arg : String} :
    arg ∈ cleaned parts ↔
      ∃ part ∈ parts, Text.trim part ≠ [] ∧ String.ofList (Text.trim part) = arg := by
  simp [cleaned, and_assoc]

theorem keyParts_of_not_mem {key : String} (h : '(' ∉ key.toList) : keyParts key = (key, []) := by
  have hnone : key.toList.dropWhile (· != '(') = [] :=
    Text.dropWhile_eq_nil fun c hc => bne_iff_ne.mpr (ne_of_mem_of_not_mem hc h)
  simp only [keyParts, hnone]

theorem keyParts_of_opening {key : String} {name rest : List Char}
    (hkey : key.toList = name ++ '(' :: rest) (hname : '(' ∉ name) :
    keyParts key = (String.ofList name, cleaned (splitAt ',' (dropClosing rest))) := by
  have hrun : ∀ c ∈ name, (c != '(') = true := fun c hc =>
    bne_iff_ne.mpr (ne_of_mem_of_not_mem hc hname)
  have hopening : ∀ c ∈ ('(' :: rest).head?, (c != '(') = false := by
    rintro c ⟨⟩
    rfl
  simp only [keyParts, hkey, Text.takeWhile_append_eq hrun hopening,
    Text.dropWhile_append_eq hrun hopening, cleaned]

theorem not_mem_functionName (key : String) : '(' ∉ (functionName key).toList := by
  rw [functionName, String.toList_ofList]
  exact fun hmem => absurd (List.mem_takeWhile_imp hmem) (by simp)

/-- Whatever the text of a key, the arguments that are read from it are clean. -/
theorem of_mem_keyParts {key arg : String} (h : arg ∈ (keyParts key).2) :
    arg ≠ "" ∧ ',' ∉ arg.toList ∧ Text.trimmed arg = arg := by
  have hclean : ∃ parts : List (List Char), (∀ part ∈ parts, ',' ∉ part) ∧ arg ∈ cleaned parts := by
    by_cases hopening : '(' ∈ key.toList
    · obtain ⟨name, rest, hkey, hname⟩ := List.eq_append_cons_of_mem hopening
      rw [keyParts_of_opening hkey hname] at h
      exact ⟨_, fun _ => not_mem_of_mem_splitAt, h⟩
    · rw [keyParts_of_not_mem hopening] at h
      exact absurd h List.not_mem_nil
  obtain ⟨parts, hcomma, harg⟩ := hclean
  obtain ⟨part, hpart, hne, rfl⟩ := mem_cleaned.mp harg
  refine ⟨?_, ?_, ?_⟩
  · simpa using hne
  · rw [String.toList_ofList]
    exact fun hmem => hcomma part hpart (Text.mem_of_mem_trim hmem)
  · rw [Text.trimmed, String.toList_ofList, Text.trim_trim]

/-- Clean arguments are found as they are. -/
theorem cleaned_map_toList {args : List String} (hne : ∀ arg ∈ args, arg ≠ "")
    (htrim : ∀ arg ∈ args, Text.trimmed arg = arg) : cleaned (args.map String.toList) = args := by
  have hmap : (args.map String.toList).map Text.trim = args.map String.toList := by
    rw [List.map_map]
    refine List.map_congr_left fun arg harg => ?_
    have hchars := congrArg String.toList (htrim arg harg)
    rwa [Text.trimmed, String.toList_ofList] at hchars
  have hfilter : (args.map String.toList).filter (fun part => !part.isEmpty) =
      args.map String.toList := by
    refine List.filter_eq_self.mpr fun part hpart => ?_
    obtain ⟨arg, harg, rfl⟩ := List.mem_map.mp hpart
    simpa using hne arg harg
  rw [cleaned, hmap, hfilter, List.map_map]
  exact (List.map_congr_left fun arg _ => String.ofList_toList).trans (List.map_id args)

/-! ## Ground fluents that are read back -/

/-- A ground fluent that its key says all about: there is no opening parenthesis in the name, no
comma and no blank space at the ends of an argument, no argument is empty, and the last one does not
end with a closing parenthesis. -/
structure IsLegible (name : String) (args : List String) : Prop where
  opening : '(' ∉ name.toList
  nonempty : ∀ arg ∈ args, arg ≠ ""
  comma : ∀ arg ∈ args, ',' ∉ arg.toList
  trimmed : ∀ arg ∈ args, Text.trimmed arg = arg
  closing : ∀ arg ∈ args.getLast?, ')' ∉ arg.toList.getLast?

variable {name other : String} {args others : List String}

theorem groundKey_nil (name : String) : groundKey name [] = name := rfl

/-- The arguments that are read from a key: all but the last one lose blank space at most. -/
theorem keyParts_groundKey_concat {front : List String} {last : String}
    (hname : '(' ∉ name.toList) (hcomma : ∀ arg ∈ front ++ [last], ',' ∉ arg.toList) :
    keyParts (groundKey name (front ++ [last])) =
      (name, cleaned (front.map String.toList ++ [dropClosing last.toList])) := by
  have hkey : (groundKey name (front ++ [last])).toList = name.toList ++
      '(' :: ([','].intercalate (front.map String.toList ++ [last.toList]) ++ [')']) := by
    simp [groundKey, String.toList_intercalate]
  have hparts : ∀ part ∈ front.map String.toList ++ [dropClosing last.toList], ',' ∉ part := by
    intro part hpart
    rcases List.mem_append.mp hpart with hfront | hlast
    · obtain ⟨arg, harg, rfl⟩ := List.mem_map.mp hfront
      exact hcomma arg (List.mem_append_left _ harg)
    · rw [List.mem_singleton.mp hlast]
      exact fun hmem => hcomma last (by simp) ((isPrefix_dropClosing _).subset hmem)
  rw [keyParts_of_opening hkey hname, String.ofList_toList, dropClosing_concat, if_pos rfl,
    dropClosing_intercalate, splitAt_eq_splitOn, List.splitOn_intercalate ',' hparts (by simp)]

/-- A closing parenthesis that the last argument ends with is lost. -/
theorem keyParts_groundKey_ne {front : List String} {last : String} (hname : '(' ∉ name.toList)
    (hclean : ∀ arg ∈ front ++ [last], arg ≠ "" ∧ ',' ∉ arg.toList ∧ Text.trimmed arg = arg)
    (hclosing : ')' ∈ last.toList.getLast?) :
    (keyParts (groundKey name (front ++ [last]))).2 ≠ front ++ [last] := by
  have hfront : cleaned (front.map String.toList) = front :=
    cleaned_map_toList (fun arg harg => (hclean arg (List.mem_append_left _ harg)).1)
      fun arg harg => (hclean arg (List.mem_append_left _ harg)).2.2
  rw [keyParts_groundKey_concat hname fun arg harg => (hclean arg harg).2.1, cleaned_append, hfront]
  intro hread
  have hlast : last ∈ cleaned [dropClosing last.toList] := by
    rw [List.append_cancel_left hread]
    exact List.mem_cons_self
  obtain ⟨part, hpart, -, heq⟩ := mem_cleaned.mp hlast
  -- what is read is shorter than the last argument
  obtain ⟨body, hbody⟩ := List.getLast?_eq_some_iff.mp hclosing
  rw [List.mem_singleton.mp hpart, hbody, dropClosing_concat, if_pos rfl] at heq
  have hshort : last.toList.length ≤ body.length := by
    rw [← heq, String.toList_ofList]
    exact (Text.length_trim_le _).trans (isPrefix_dropClosing body).length_le
  rw [hbody, List.length_append, List.length_singleton] at hshort
  omega

/-- **A key says what it was written from** exactly if the ground fluent is legible. -/
theorem keyParts_groundKey_iff :
    keyParts (groundKey name args) = (name, args) ↔ IsLegible name args := by
  constructor
  · intro h
    have hname : functionName (groundKey name args) = name := by rw [← keyParts_fst, h]
    have hopening : '(' ∉ name.toList := hname ▸ not_mem_functionName _
    have hclean : ∀ arg ∈ args, arg ≠ "" ∧ ',' ∉ arg.toList ∧ Text.trimmed arg = arg := by
      intro arg harg
      have hread : arg ∈ (keyParts (groundKey name args)).2 := by rwa [h]
      exact of_mem_keyParts hread
    refine ⟨hopening, fun arg harg => (hclean arg harg).1, fun arg harg => (hclean arg harg).2.1,
      fun arg harg => (hclean arg harg).2.2, fun last hlast hclosing => ?_⟩
    obtain ⟨front, rfl⟩ := List.getLast?_eq_some_iff.mp hlast
    exact keyParts_groundKey_ne hopening hclean hclosing (congrArg Prod.snd h)
  · intro h
    obtain rfl | ⟨front, last, rfl⟩ := List.eq_nil_or_concat' args
    · rw [groundKey_nil, keyParts_of_not_mem h.opening]
    · have hlast : dropClosing last.toList = last.toList :=
        dropClosing_eq_self (h.closing last (by simp))
      have hall : front.map String.toList ++ [last.toList] =
          (front ++ [last]).map String.toList := by simp
      rw [keyParts_groundKey_concat h.opening h.comma, hlast, hall,
        cleaned_map_toList h.nonempty h.trimmed]

namespace IsLegible

variable (h : IsLegible name args)
include h

/-- Different legible ground fluents have different keys. -/
theorem groundKey_inj (hother : IsLegible other others) :
    groundKey name args = groundKey other others ↔ name = other ∧ args = others := by
  constructor
  · intro heq
    have hparts : (name, args) = (other, others) := by
      rw [← keyParts_groundKey_iff.mpr h, ← keyParts_groundKey_iff.mpr hother, heq]
    exact Prod.mk.inj hparts
  · rintro ⟨rfl, rfl⟩
    rfl

/-- The category, the unit, the owner and the range of a fluent are told by the name of the function
and the first argument that its key was written from. -/
theorem ofKey_groundKey (settings : FluentSettings) (initial : Float) :
    let f := Fluent.ofKey settings (groundKey name args) initial
    f.kind = FluentKind.ofName name ∧ f.unit = (FluentKind.ofName name).unit? ∧
      f.owner = args.head? ∧
      (f.least, f.greatest) =
        if FluentKind.ofName name = .battery then
          (some settings.batteryLeast, some settings.batteryGreatest)
        else (none, none) := by
  simp only [Fluent.ofKey, keyParts_groundKey_iff.mpr h]
  generalize FluentKind.ofName name = kind
  split_ifs
  · simp [Fluent.confine]
  · simp [Fluent.unbounded]

end IsLegible

/-! ## The fluents of an initial state -/

/-- Under a key stands the last initial value that is stated for it. -/
theorem Store.get?_ofProblem (settings : FluentSettings) (problem : Problem) (key : String) :
    (ofProblem settings problem).get? key =
      (problem.numericInit.reverse.find? fun init => init.key == key).map
        fun init => Fluent.ofKey settings init.key init.value := by
  unfold ofProblem
  induction problem.numericInit using List.reverseRecOn with
  | nil => rfl
  | append_singleton front last ih =>
    rw [List.foldl_append, List.foldl_cons, List.foldl_nil, List.reverse_append,
      List.reverse_singleton, List.singleton_append, List.find?_cons]
    by_cases hkey : last.key = key
    · subst hkey
      have hself := get?_insert_self
        (front.foldl (fun s init => s.insert (Fluent.ofKey settings init.key init.value)) {})
        (Fluent.ofKey settings last.key last.value)
      rw [name_ofKey] at hself
      rw [hself, beq_self_eq_true]
      rfl
    · have hne : key ≠ (Fluent.ofKey settings last.key last.value).name := by
        rw [name_ofKey]
        exact Ne.symm hkey
      rw [get?_insert_of_ne hne, ih, beq_eq_false_iff_ne.mpr hkey]

/-- The initial values of other ground fluents do not count. -/
theorem IsLegible.get?_ofProblem (h : IsLegible name args) (settings : FluentSettings)
    {problem : Problem}
    (hproblem : ∀ init ∈ problem.numericInit, IsLegible init.function init.args) :
    (Store.ofProblem settings problem).get? (groundKey name args) =
      (problem.numericInit.reverse.find? fun init => init.function == name && init.args == args).map
        fun init => Fluent.ofKey settings (groundKey name args) init.value := by
  have hsame : ∀ init ∈ problem.numericInit.reverse, (init.key == groundKey name args) =
      (init.function == name && init.args == args) := by
    intro init hinit
    have hkeys := (hproblem init (List.mem_reverse.mp hinit)).groundKey_inj h
    rw [Bool.eq_iff_iff]
    simpa [InitialNumber.key] using hkeys
  rw [Store.get?_ofProblem, List.find?_congr hsame]
  refine Option.map_congr fun init hinit => ?_
  have hfound := List.find?_some (Option.mem_def.mp hinit)
  simp only [Bool.and_eq_true, beq_iff_eq] at hfound
  rw [InitialNumber.key, hfound.1, hfound.2]

/-! ## Words in keys -/

/-- A word as it stands for a function or an object in a key: one without parentheses and commas. -/
def IsKeyWord (word : String) : Prop :=
  Token.IsWord word.toList ∧ ',' ∉ word.toList

instance (word : String) : Decidable (IsKeyWord word) :=
  inferInstanceAs (Decidable (_ ∧ _))

theorem isLegible_of_words (h : ∀ word ∈ name :: args, IsKeyWord word) : IsLegible name args := by
  have hplain : ∀ word ∈ name :: args, ∀ c ∈ word.toList,
      Text.isBlank c = false ∧ c ≠ '(' ∧ c ≠ ')' :=
    fun word hword c hc => Token.isPlain_iff.mp ((h word hword).1.2 c hc)
  rw [List.forall_mem_cons] at h hplain
  obtain ⟨-, hargs⟩ := h
  obtain ⟨hname, hplain⟩ := hplain
  constructor
  case opening => exact fun hmem => (hname _ hmem).2.1 rfl
  case nonempty =>
    intro arg harg
    simpa using (hargs arg harg).1.1
  case comma => exact fun arg harg => (hargs arg harg).2
  case trimmed =>
    intro arg harg
    have htrim : Text.trim arg.toList = arg.toList :=
      Text.trim_eq_self (fun c hc => (hplain arg harg c (List.mem_of_mem_head? hc)).1)
        fun c hc => (hplain arg harg c (List.mem_of_mem_getLast? hc)).1
    rw [Text.trimmed, htrim, String.ofList_toList]
  case closing =>
    intro last hlast hclosing
    have harg : last ∈ args := List.mem_of_mem_getLast? hlast
    exact (hplain last harg _ (List.mem_of_mem_getLast? hclosing)).2.2 rfl

/-- **Ground fluents are told by their keys.**  A key that is written with words is read back.  No
other ground fluent has it, and what is told from it is told from the name of the function and the
first argument.  So each of the ground fluents that a problem states has a place of its own in the
store, and the last value that is stated for it stands there. -/
theorem ground_fluents_told_by_keys (hwords : ∀ word ∈ name :: args, IsKeyWord word) :
    keyParts (groundKey name args) = (name, args) ∧
    (∀ (other : String) (others : List String), (∀ word ∈ other :: others, IsKeyWord word) →
      (groundKey other others = groundKey name args ↔ other = name ∧ others = args)) ∧
    (∀ (settings : FluentSettings) (initial : Float),
      let f := Fluent.ofKey settings (groundKey name args) initial
      f.kind = FluentKind.ofName name ∧ f.unit = (FluentKind.ofName name).unit? ∧
        f.owner = args.head? ∧
        (f.least, f.greatest) =
          if FluentKind.ofName name = .battery then
            (some settings.batteryLeast, some settings.batteryGreatest)
          else (none, none)) ∧
    ∀ (settings : FluentSettings) (problem : Problem),
      (∀ init ∈ problem.numericInit, ∀ word ∈ init.function :: init.args, IsKeyWord word) →
      (Store.ofProblem settings problem).get? (groundKey name args) =
        (problem.numericInit.reverse.find? fun init =>
          init.function == name && init.args == args).map
          fun init => Fluent.ofKey settings (groundKey name args) init.value := by
  have h : IsLegible name args := isLegible_of_words hwords
  refine ⟨keyParts_groundKey_iff.mpr h, fun other others hothers => ?_, h.ofKey_groundKey,
    fun settings problem hproblem => ?_⟩
  · exact (isLegible_of_words hothers).groundKey_inj h
  · exact h.get?_ofProblem settings fun init hinit => isLegible_of_words (hproblem init hinit)

/-- Two rovers, the first of them with two initial values, and fluents whose keys begin alike. -/
def roverProblem : Problem where
  numericInit :=
    [⟨"battery", ["r1"], 160.0⟩, ⟨"battery", ["r1"], 80.0⟩, ⟨"battery", ["r1", "r2"], 30.0⟩,
      ⟨"battery", [], 20.0⟩, ⟨"battery", ["r2"], 10.0⟩]

theorem battery_told_by_key :
    (∀ word ∈ ["battery", "r1"], IsKeyWord word) ∧ keyParts "battery(r1)" = ("battery", ["r1"]) ∧
    ((∀ word ∈ ["battery", "r1", "r2"], IsKeyWord word) ∧
      groundKey "battery" ["r1", "r2"] ≠ "battery(r1)") ∧
    ((Fluent.ofKey {} "battery(r1)" 160.0).kind = .battery ∧
      (Fluent.ofKey {} "battery(r1)" 160.0).owner = some "r1" ∧
      (Fluent.ofKey {} "battery(r1)" 160.0).greatest = some 100.0) ∧
    (∀ init ∈ roverProblem.numericInit, ∀ word ∈ init.function :: init.args, IsKeyWord word) ∧
    (Store.ofProblem {} roverProblem).get? "battery(r1)" =
      some (Fluent.ofKey {} "battery(r1)" 80.0) := by
  have hwords : ∀ word ∈ ["battery", "r1"], IsKeyWord word := by decide +kernel
  have hothers : ∀ word ∈ ["battery", "r1", "r2"], IsKeyWord word := by decide +kernel
  have hproblem : ∀ init ∈ roverProblem.numericInit, ∀ word ∈ init.function :: init.args,
      IsKeyWord word := by decide +kernel
  have hkey : groundKey "battery" ["r1"] = "battery(r1)" := by decide +kernel
  have hkind : FluentKind.ofName "battery" = .battery := by decide +kernel
  obtain ⟨hparts, hother, hfluent, hstore⟩ := ground_fluents_told_by_keys hwords
  rw [hkey] at hparts
  refine ⟨hwords, hparts, ⟨hothers, ?_⟩, ?_, hproblem, ?_⟩
  · rw [← hkey, Ne, hother "battery" ["r1", "r2"] hothers]
    decide
  · obtain ⟨hkind', -, howner, hrange⟩ := hfluent {} 160.0
    rw [hkey, hkind] at hkind'
    rw [hkey] at howner
    rw [hkey, if_pos hkind] at hrange
    exact ⟨hkind', howner, (Prod.mk.inj hrange).2⟩
  · have hlast := hstore {} roverProblem hproblem
    rw [hkey] at hlast
    simpa [roverProblem] using hlast

end PlanPlayback
