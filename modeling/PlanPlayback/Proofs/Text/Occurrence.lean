import Mathlib.Data.List.Infix
import PlanPlayback.Text.Blank
import PlanPlayback.Transcript.Cues

/-!
# Where something occurs

Cues and effects are looked for at every place of a text.  A part of a text is `Quiet` if nothing is
found at the places in it, whatever is found behind it; a text that was put together from quiet parts
is then quiet as a whole.  Scanners look at most one character back, so that the parts only have to
know the last character in front of them.

The lines of a text are parts of it as well, and what is between them is nothing but line ends
(`exists_of_lines_eq_cons`).
-/

namespace PlanPlayback.Text

/-! ## Quiet parts -/

/-- The last character of a text, or the one in front of it if it is empty. -/
def lastOf (before : Option Char) (text : List Char) : Option Char :=
  text.getLast?.or before

/-- Whether nothing is found at the places of a part, with another text behind it. -/
def Quiet (found : Option Char → List Char → Bool) : Option Char → List Char → List Char → Prop
  | _, [], _ => True
  | before, c :: rest, behind =>
      found before (c :: (rest ++ behind)) = false ∧ Quiet found (some c) rest behind

theorem lastOf_cons (before : Option Char) (c : Char) (rest : List Char) :
    lastOf before (c :: rest) = lastOf (some c) rest := by
  cases rest with
  | nil => rfl
  | cons d rest => simp [lastOf, List.getLast?_cons]

section

variable {found : Option Char → List Char → Bool} {before : Option Char} {behind : List Char}

theorem Quiet.append {first second : List Char}
    (hfirst : Quiet found before first (second ++ behind))
    (hsecond : Quiet found (lastOf before first) second behind) :
    Quiet found before (first ++ second) behind := by
  induction first generalizing before with
  | nil => exact hsecond
  | cons c rest ih =>
    obtain ⟨hc, hrest⟩ := hfirst
    rw [lastOf_cons] at hsecond
    refine ⟨?_, ih hrest hsecond⟩
    change found before (c :: (rest ++ second ++ behind)) = false
    rwa [List.append_assoc]

theorem quiet_singleton {c : Char} (h : found before (c :: behind) = false) :
    Quiet found before [c] behind :=
  ⟨h, trivial⟩

/-- Nothing is found at characters with which nothing begins. -/
theorem quiet_of_head {part : List Char}
    (h : ∀ c ∈ part, ∀ before rest, found before (c :: rest) = false) :
    Quiet found before part behind := by
  induction part generalizing before with
  | nil => trivial
  | cons c rest ih =>
    exact ⟨h c (by simp) before _, ih fun d hd => h d (List.mem_cons_of_mem _ hd)⟩

/-- What is not found in a text alone is not found if something stands behind it that it cannot
reach into. -/
theorem Quiet.extend {part : List Char} (hquiet : Quiet found before part [])
    (h : ∀ before c rest, found before (c :: (rest ++ behind)) = found before (c :: rest)) :
    Quiet found before part behind := by
  induction part generalizing before with
  | nil => trivial
  | cons c rest ih =>
    obtain ⟨hc, hrest⟩ := hquiet
    rw [List.append_nil] at hc
    exact ⟨(h before c rest).trans hc, ih hrest⟩

theorem Quiet.or {found' : Option Char → List Char → Bool} {part : List Char}
    (hquiet : Quiet found before part behind) (hquiet' : Quiet found' before part behind) :
    Quiet (fun before text => found before text || found' before text) before part behind := by
  induction part generalizing before with
  | nil => trivial
  | cons c rest ih => exact ⟨Bool.or_eq_false_iff.mpr ⟨hquiet.1, hquiet'.1⟩, ih hquiet.2 hquiet'.2⟩

/-- Only what is found at the first place depends on what stands in front of it. -/
theorem Quiet.change {before' : Option Char} {part : List Char}
    (h : ∀ text, found before text = false → found before' text = false)
    (hquiet : Quiet found before part behind) : Quiet found before' part behind := by
  cases part with
  | nil => trivial
  | cons c rest => exact ⟨h _ hquiet.1, hquiet.2⟩

end

theorem everywhere_append_of_quiet {α : Type} {scanner : Option Char → List Char → Option α}
    {before : Option Char} {part behind : List Char}
    (h : Quiet (fun before text => (scanner before text).isSome) before part behind) :
    everywhere scanner before (part ++ behind) =
      everywhere scanner (lastOf before part) behind := by
  induction part generalizing before with
  | nil => rfl
  | cons c rest ih =>
    obtain ⟨hc, hrest⟩ := h
    have hnone : scanner before (c :: (rest ++ behind)) = none := by simpa using hc
    rw [List.cons_append, everywhere, hnone, lastOf_cons, ← ih hrest]
    rfl

theorem occurs_eq_false_iff {cue : Option Char → List Char → Bool} {text : List Char} :
    Transcript.occurs cue text = false ↔
      Quiet cue none text [] ∧ cue (lastOf none text) [] = false := by
  unfold Transcript.occurs
  generalize (none : Option Char) = before
  induction text generalizing before with
  | nil => simp [anywhere?, Quiet, lastOf]
  | cons c rest ih =>
    rw [lastOf_cons, Quiet, List.append_nil, and_assoc, ← ih (some c), anywhere?]
    cases cue before (c :: rest) <;> simp

theorem occurs_or {first second : Option Char → List Char → Bool} {text : List Char}
    (hfirst : Transcript.occurs first text = false)
    (hsecond : Transcript.occurs second text = false) :
    Transcript.occurs (fun before rest => first before rest || second before rest) text =
      false := by
  rw [occurs_eq_false_iff] at hfirst hsecond ⊢
  exact ⟨hfirst.1.or hsecond.1, by rw [hfirst.2, hsecond.2]; rfl⟩

/-! ## Parts and beginnings -/

theorem hasPart_iff {part text : List Char} : hasPart part text = true ↔ part <:+: text := by
  induction text with
  | nil => simp [hasPart]
  | cons c rest ih =>
    rw [hasPart, Bool.or_eq_true, List.isPrefixOf_iff_prefix, ih, List.infix_cons_iff]

theorem afterPrefix?_eq_some_iff {start text rest : List Char} :
    afterPrefix? start text = some rest ↔ text = start ++ rest := by
  induction start generalizing text with
  | nil => simp [afterPrefix?, eq_comm]
  | cons a start ih =>
    cases text with
    | nil => simp [afterPrefix?]
    | cons c text =>
      by_cases hac : a = c
      · subst hac
        simp [afterPrefix?, ih]
      · simp [afterPrefix?, hac, Ne.symm hac]

/-! ## Lines -/

/-- The ways in which a line ends.  The last one may end with the text. -/
inductive IsLineEnd : List Char → List Char → Prop where
  | feed (behind : List Char) : IsLineEnd ['\n'] behind
  | returnFeed (behind : List Char) : IsLineEnd ['\r', '\n'] behind
  | last : IsLineEnd [] []

theorem lines_eq_nil_iff {text : List Char} : lines text = [] ↔ text = [] := by
  constructor
  · intro h
    unfold lines at h
    split at h
    · rfl
    · cases h
    · cases h
    · split at h <;> cases h
  · rintro rfl
    rfl

/-- The first line of a text, what ends it, and what is behind it. -/
theorem exists_of_lines_eq_cons {text line : List Char} {rest : List (List Char)}
    (h : lines text = line :: rest) :
    ∃ ending behind, IsLineEnd ending behind ∧ text = line ++ (ending ++ behind) ∧
      lines behind = rest := by
  induction text using lines.induct generalizing line rest with
  | case1 => cases h
  | case2 behind ih =>
    rw [lines] at h
    obtain ⟨rfl, rfl⟩ := List.cons.inj h
    exact ⟨_, behind, .feed behind, rfl, rfl⟩
  | case3 behind ih =>
    rw [lines] at h
    obtain ⟨rfl, rfl⟩ := List.cons.inj h
    exact ⟨_, behind, .returnFeed behind, rfl, rfl⟩
  | case4 c text hfeed hreturn hnil ih =>
    rw [lines, hnil] at h
    · obtain rfl : text = [] := lines_eq_nil_iff.mp hnil
      obtain ⟨rfl, rfl⟩ := List.cons.inj h
      exact ⟨[], [], .last, rfl, rfl⟩
    · exact hfeed
    · exact hreturn
  | case5 c text hfeed hreturn line' others hlines ih =>
    rw [lines, hlines] at h
    · obtain ⟨rfl, rfl⟩ := List.cons.inj h
      obtain ⟨ending, behind, hending, htext, hbehind⟩ := ih hlines
      exact ⟨ending, behind, hending, by rw [htext]; rfl, hbehind⟩
    · exact hfeed
    · exact hreturn

/-- What is in a text is in one of its lines, up to the ends of lines. -/
theorem exists_mem_lines {text : List Char} {c : Char} (hc : c ∈ text) :
    c ∈ ['\r', '\n'] ∨ ∃ line ∈ lines text, c ∈ line := by
  generalize hall : lines text = all
  induction all generalizing text with
  | nil =>
    rw [lines_eq_nil_iff.mp hall] at hc
    cases hc
  | cons line rest ih =>
    obtain ⟨ending, behind, hending, rfl, hbehind⟩ := exists_of_lines_eq_cons hall
    rw [List.mem_append, List.mem_append] at hc
    rcases hc with hc | hc | hc
    · exact .inr ⟨line, by simp, hc⟩
    · exact .inl (by cases hending <;> simp_all)
    · refine (ih hc hbehind).imp_right ?_
      rintro ⟨other, hother, hc⟩
      exact ⟨other, List.mem_cons_of_mem _ hother, hc⟩

end PlanPlayback.Text
