import PlanPlayback.Pddl.Sections
import PlanPlayback.Proofs.Text.Lines

/-!
# Comments

What is read from the text of a domain or a problem rests on what its lines hold in front of their
comments, and on nothing else.  Two texts with the same code line by line are read alike, whatever
their comments say.

Comments are dropped only after the text has been mapped to lower case, and a capital sigma is mapped
by what is around it.  So it has to be seen that a sigma does not look into a comment: `codeLines`
goes along with lower case (`codeLines_lowercase`).

## Main results

* `definition?_eq_of_codeLines`: texts with the same code have the same definition;
* `codeLines_withComment`: a comment may be replaced by another one;
* `read_alike_up_to_comments`: domains and problems are read from the code alone.
-/

namespace PlanPlayback

open Text

/-! ## The code of a text -/

/-- What the lines of a text hold in front of their comments. -/
def codeLines (text : List Char) : List (List Char) :=
  (lines text).map fun line => line.takeWhile (· != ';')

theorem withoutComments_eq (text : String) :
    withoutComments text = String.ofList (['\n'].intercalate (codeLines text.toList)) :=
  rfl

/-- **The code of a text in lower case is its code in lower case.** -/
theorem codeLines_lowercase (text : List Char) :
    codeLines (lowercase text) = (codeLines text).map lowercase := by
  rw [codeLines, lines_lowercase, codeLines, List.map_map, List.map_map]
  exact List.map_congr_left fun line _ => takeWhile_lowercase line

/-- Texts with the same code have the same definition. -/
theorem definition?_eq_of_codeLines {text other : String}
    (h : codeLines text.toList = codeLines other.toList) :
    definition? text = definition? other := by
  have hprepared : withoutComments (lowercased text) = withoutComments (lowercased other) := by
    rw [withoutComments_eq, withoutComments_eq, lowercased, lowercased, String.toList_ofList,
      String.toList_ofList, codeLines_lowercase, codeLines_lowercase, h]
  rw [definition?, definition?, hprepared]

/-! ## Other comments -/

/-- The first line of code begins with what stands in front of it, unless that is a semicolon. -/
theorem codeLines_cons {c : Char} {text : List Char} (hfeed : c ≠ '\n')
    (hreturn : c = '\r' → text.head? ≠ some '\n') :
    codeLines (c :: text) =
      (c :: (codeLines text).headD []).takeWhile (· != ';') :: (codeLines text).tail := by
  rw [codeLines, lines_cons hfeed hreturn, codeLines]
  cases lines text with
  | nil => rfl
  | cons line others =>
    have hcode : (c :: line).takeWhile (· != ';') =
        (c :: line.takeWhile (· != ';')).takeWhile (· != ';') := by
      rw [List.takeWhile_cons, List.takeWhile_cons, List.takeWhile_takeWhile]
      simp only [and_self, Bool.decide_eq_true]
    exact congrArg (fun code => code :: _) hcode

/-- Nothing of a comment is code. -/
theorem codeLines_comment {comment ending behind : List Char} (hcomment : '\n' ∉ comment)
    (hending : IsLineEnd ending behind) :
    codeLines (';' :: (comment ++ (ending ++ behind))) = [] :: codeLines behind := by
  have htail : (codeLines (comment ++ (ending ++ behind))).tail = codeLines behind := by
    rw [codeLines, ← List.map_tail, tail_lines_append hcomment, tail_lines_of_isLineEnd hending,
      codeLines]
  have hreturn : ';' = '\r' → (comment ++ (ending ++ behind)).head? ≠ some '\n' :=
    fun h => absurd h (by decide)
  rw [codeLines_cons (by decide) hreturn, htail]
  rfl

theorem codeLines_cons_congr {text other : List Char} (hhead : text.head? = other.head?)
    (h : codeLines text = codeLines other) (c : Char) :
    codeLines (c :: text) = codeLines (c :: other) := by
  by_cases hfeed : c = '\n'
  · subst hfeed
    exact congrArg (List.cons []) h
  by_cases hreturn : c = '\r' → text.head? ≠ some '\n'
  · rw [codeLines_cons hfeed hreturn, codeLines_cons hfeed (hhead ▸ hreturn), h]
  · -- a carriage return and a line feed are one end
    push Not at hreturn
    obtain ⟨rfl, htext⟩ := hreturn
    rw [htext, eq_comm] at hhead
    obtain ⟨behind, rfl⟩ := List.head?_eq_some_iff.mp htext
    obtain ⟨behind', rfl⟩ := List.head?_eq_some_iff.mp hhead
    exact h

/-- Texts with the same code have the same code behind any text. -/
theorem codeLines_append_congr {text other : List Char} (hhead : text.head? = other.head?)
    (h : codeLines text = codeLines other) (front : List Char) :
    codeLines (front ++ text) = codeLines (front ++ other) := by
  induction front with
  | nil => exact h
  | cons c front ih =>
    refine codeLines_cons_congr ?_ ih c
    rw [List.head?_append, List.head?_append, hhead]

/-- A text with a comment up to the end of a line. -/
def withComment (front comment ending behind : List Char) : String :=
  String.ofList (front ++ ';' :: (comment ++ (ending ++ behind)))

/-- **A comment may be replaced by another one.** -/
theorem codeLines_withComment (front : List Char) {comment other ending behind : List Char}
    (hcomment : '\n' ∉ comment) (hother : '\n' ∉ other) (hending : IsLineEnd ending behind) :
    codeLines (withComment front comment ending behind).toList =
      codeLines (withComment front other ending behind).toList := by
  rw [withComment, withComment, String.toList_ofList, String.toList_ofList]
  refine codeLines_append_congr (by rfl) ?_ front
  rw [codeLines_comment hcomment hending, codeLines_comment hother hending]

/-! ## Reading domains and problems -/

/-- **Domains and problems are read from the code alone**: texts with the same code have the same
value and the same findings, or are refused alike, and a comment may be replaced by any other. -/
theorem read_alike_up_to_comments :
    (∀ text other : String, codeLines text.toList = codeLines other.toList →
      Domain.parse? text = Domain.parse? other ∧ Problem.parse? text = Problem.parse? other) ∧
    ∀ front comment other ending behind : List Char, '\n' ∉ comment → '\n' ∉ other →
      IsLineEnd ending behind →
      Domain.parse? (withComment front comment ending behind) =
          Domain.parse? (withComment front other ending behind) ∧
        Problem.parse? (withComment front comment ending behind) =
          Problem.parse? (withComment front other ending behind) := by
  have halike : ∀ text other : String, codeLines text.toList = codeLines other.toList →
      Domain.parse? text = Domain.parse? other ∧ Problem.parse? text = Problem.parse? other := by
    intro text other h
    have hform := definition?_eq_of_codeLines h
    constructor
    · rw [Domain.parse?, Domain.parse?, hform]
    · rw [Problem.parse?, Problem.parse?, hform]
  refine ⟨halike, ?_⟩
  intro front comment other ending behind hcomment hother hending
  exact halike _ _ (codeLines_withComment front hcomment hother hending)

/-- A capital sigma ends its word in front of a comment, and the parenthesis, the section and the
quote in the comment are not seen. -/
theorem dock_read_up_to_comments :
    Domain.parse? "(define (domain ΑΣ;Α) (:types \"\r\n))" =
        Domain.parse? "(define (domain ΑΣ; up\n))" ∧
      Domain.parse? (withComment "(define (domain ΑΣ".toList "Α) (:types \"".toList
          ['\r', '\n'] "))".toList) =
        Domain.parse? (withComment "(define (domain ΑΣ".toList " up".toList
          ['\r', '\n'] "))".toList) ∧
      (Domain.parse? "(define (domain ΑΣ; up\n))").map (·.value.name) = some "ας" := by
  refine ⟨?_, ?_, by decide +kernel⟩
  · exact (read_alike_up_to_comments.1 _ _ (by decide +kernel)).1
  · exact (read_alike_up_to_comments.2 _ _ _ _ _ (by decide) (by decide) (.returnFeed _)).1

end PlanPlayback
