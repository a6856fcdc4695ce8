import PlanPlayback.Proofs.Transcript.LineReading
import PlanPlayback.Proofs.Transcript.TemporalRoundTrip

/-!
# Actions that were read are calls

Two kinds of readers say what a word is.  The readers of plans take words from a line by classes of
characters, and map them to lower case; the reader of domains and problems splits a text into tokens.
They mean the same: the signature of an action that was read is read again, as one list, of the name
and the arguments of the action (`Transcript.read_actions_read_back`).

## Strategy

It is enough that name and arguments are words (`Action.IsCall`), and this has two reasons.  A shape
that fits a line hands over words (`isWellFormed_of_scan`), and lower case makes words of words
(`isWord_lowercase`).  An entry of a solution file is mapped to lower case as a whole and read as an
s-expression then, so that name and arguments are atoms of what was read.
-/

namespace PlanPlayback

open Sexpr
open Token (IsWord isPlain_iff)

namespace Action

/-- An action whose name and arguments are words. -/
def IsCall (a : Action) : Prop :=
  ∀ token ∈ a.tokens, IsWord token.toList

/-- The signature of an action is read as a single list of its name and its arguments, and these are
texts without blank space and parentheses. -/
structure IsReadBack (a : Action) : Prop where
  readForms_eq : readForms a.signature = [.list (.atom a.name :: a.args.map .atom)]
  ne_empty : ∀ token ∈ a.name :: a.args, token ≠ ""
  plain : ∀ token ∈ a.name :: a.args, ∀ c ∈ token.toList,
    Text.isBlank c = false ∧ c ≠ '(' ∧ c ≠ ')'

variable {a : Action}

theorem IsCall.readForms_signature (h : a.IsCall) :
    readForms a.signature = [.list (a.tokens.map .atom)] := by
  have hwords : ∀ token ∈ Transcript.wordsOfAction a, IsWord token := by
    intro token htoken
    obtain ⟨text, htext, rfl⟩ := List.mem_map.mp htoken
    exact h text htext
  have hsignature : a.signature = String.ofList (Text.grouped (Transcript.wordsOfAction a)) := by
    rw [← Transcript.toList_signature, String.ofList_toList]
  rw [hsignature, Transcript.readForms_grouped hwords, Transcript.wordsOfAction, List.map_map]
  simp [Function.comp_def]

/-- A call is read back. -/
theorem IsCall.isReadBack (h : a.IsCall) : a.IsReadBack := by
  refine ⟨h.readForms_signature, ?_, ?_⟩
  · rintro token htoken rfl
    exact (h "" htoken).1 rfl
  · intro token htoken c hc
    exact isPlain_iff.mp ((h token htoken).2 c hc)

end Action

namespace Transcript

open Text

variable {settings : DurationSettings} {position : ℕ} {a : Action}

/-! ## Actions on lines -/

theorem isCall_of_apply {rule : ActionRule} {line : List Char}
    (h : rule.apply settings position line = some a) : a.IsCall := by
  simp only [ActionRule.apply, LineMatch.toAction?, Option.map_eq_some_iff, Option.bind_eq_some_iff,
    Prod.exists] at h
  obtain ⟨_, ⟨found, hscan, start, duration, -, rfl⟩, rfl⟩ := h
  have hfound : ∀ token ∈ found.name :: found.args, IsWord (lowercase token) := by
    intro token htoken
    exact isWord_lowercase ((isWellFormed_of_scan hscan).isWord token htoken)
  rw [List.forall_mem_cons] at hfound
  refine List.forall_mem_cons.mpr ⟨?_, ?_⟩
  · exact String.toList_ofList ▸ hfound.1
  · intro token htoken
    obtain ⟨arg, harg, rfl⟩ := List.mem_map.mp htoken
    exact String.toList_ofList ▸ hfound.2 arg harg

theorem isCall_of_actionOnLine {dialect : Dialect} {line : List Char}
    (h : actionOnLine dialect settings position line = some a) : a.IsCall := by
  obtain ⟨rule, b, effects, happly, rfl⟩ := exists_apply_of_actionOnLine h
  have hcall : b.IsCall := isCall_of_apply happly
  exact hcall

/-! ## Actions of solution files -/

theorem isWord_of_call? {entry : SolutionEntry} {name : String} {args : List String}
    (h : entry.call? = some (name, args)) : ∀ token ∈ name :: args, IsWord token.toList := by
  have hread : ∀ token ∈ leavesAll (readForms (String.ofList (lowercase entry.group))),
      IsWord token.toList := fun token => isWord_of_mem_leavesAll_readForms
  unfold SolutionEntry.call? at h
  split at h
  case h_1 rest others hforms =>
    obtain ⟨rfl, rfl⟩ := Prod.mk.inj (Option.some.inj h)
    simp only [hforms, leavesAll, leaves, List.forall_mem_append] at hread
    refine List.forall_mem_cons.mpr ⟨hread.1.1 _ (List.mem_singleton_self _), ?_⟩
    intro token htoken
    exact hread.1.2 token (filterMap_atom?_subset_leavesAll rest htoken)
  case h_2 => cases h

theorem isCall_of_mem_solutionActions {dialect : Dialect} {found : List SolutionEntry}
    (h : a ∈ solutionActions dialect settings position found) : a.IsCall := by
  obtain ⟨entry, place, hentry⟩ := exists_toAction?_of_mem_solutionActions h
  obtain ⟨⟨name, args⟩, hcall, rfl⟩ := Option.map_eq_some_iff.mp hentry
  exact isWord_of_call? hcall

theorem isCall_of_solution? {text : String} {p : Plan} (h : solution? settings text = some p)
    (ha : a ∈ p.actions) : a.IsCall := by
  simp only [solution?] at h
  split_ifs at h
  obtain rfl := Option.some.inj h
  obtain ⟨b, hb, id, rfl⟩ := Plan.mem_actions_assemble ha
  have hcall : b.IsCall := isCall_of_mem_solutionActions hb
  exact hcall

/-- **Actions that were read are read back.**  The signature of an action that any dialect reads from
any line, or that stands in the plan of any solution file, is read as one list of the name and the
arguments of the action. -/
theorem read_actions_read_back (settings : DurationSettings) :
    (∀ dialect position line a, actionOnLine dialect settings position line = some a →
      a.IsReadBack) ∧
    ∀ text p, solution? settings text = some p → ∀ a ∈ p.actions, a.IsReadBack := by
  constructor
  · intro dialect position line a h
    exact (isCall_of_actionOnLine h).isReadBack
  · intro text p h a ha
    exact (isCall_of_solution? h ha).isReadBack

/-- A line that opens a parenthesis and does not close it, and a file in which one list stands inside
another. -/
theorem lifting_read_back :
    (∃ a, actionOnLine .temporal {} 0 "[0.5, 2]: (LIFT\tCrate-Σ".toList = some a ∧
      a.name = "lift" ∧ a.args = ["crate-σ"] ∧ a.IsReadBack) ∧
    ∃ p, solution? {} "1: (lift (crate) hook" = some p ∧ p.actions ≠ [] ∧
      ∀ a ∈ p.actions, a.IsReadBack := by
  obtain ⟨hline, hsolution⟩ := read_actions_read_back {}
  constructor
  · have hread : (actionOnLine .temporal {} 0 "[0.5, 2]: (LIFT\tCrate-Σ".toList).any
        (fun a => a.name == "lift" && a.args == ["crate-σ"]) = true := by decide +kernel
    obtain ⟨a, ha, hcall⟩ := (Option.any_eq_true _ _).mp hread
    simp only [Bool.and_eq_true, beq_iff_eq] at hcall
    exact ⟨a, ha, hcall.1, hcall.2, hline _ _ _ a ha⟩
  · have hread : (solution? {} "1: (lift (crate) hook").any (fun p => !p.actions.isEmpty) = true := by
      decide +kernel
    obtain ⟨p, hp, hne⟩ := (Option.any_eq_true _ _).mp hread
    exact ⟨p, hp, by simpa using hne, hsolution _ p hp⟩

end Transcript

end PlanPlayback
