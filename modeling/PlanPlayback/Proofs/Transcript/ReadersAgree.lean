import PlanPlayback.Proofs.Transcript.SharedLines

/-!
# The two readers of plans agree

A text that is made of shared lines is read twice, as a solution file, and as a transcript of the
dialect that the solution file has.  Either there is no plan for both, or both find the same actions
at the same times and with the same effects.

Two things keep them apart.

* A transcript may announce its plan, and what stands in front of the announcement is no part of it.
  A solution file knows no announcement.  A comment can hold the words of one, so that an action in
  front of it is lost to one of the readers only (`AnnouncedFirst` rules this out).
* A line may leave open how long its action lasts, and then each reader has a duration of its own
  (`SharesDuration` tells where there is no difference).  There never is one in a classical plan, nor
  if the settings have one positive duration for all such lines (`HaveOneFallback`).

## Strategy

Both readers keep the same lines (`bodyLines_eq_keptLines`, `solutionLines_eq_keptLines`), and a line
is read alike by both (`SharedLines`).  As an action comes out of every line that is kept, both
count the same number of actions in front of it, so that the actions are related one by one
(`forall₂_actions`).  Related actions start together, and are therefore sorted and numbered alike.
-/

namespace PlanPlayback.Transcript

open Binary64 Decimal Text
open Token (IsWord)

/-! ## The lines that are kept -/

/-- No action stands in front of the line that announces the plan, if there is such a line. -/
def AnnouncedFirst (all : List (List Char)) : Prop :=
  (∃ line ∈ all, announces line = true) →
    ∀ line ∈ all.takeWhile (fun line => !announces line), isRemark (trim line) = true

instance (all : List (List Char)) : Decidable (AnnouncedFirst all) :=
  inferInstanceAs (Decidable (_ → _))

/-- The lines with actions. -/
def keptLines (all : List (List Char)) : List (List Char) :=
  (all.map trim).filter fun line => !isRemark line

section Lines

variable {line : List Char} {all : List (List Char)}

/-- A line with an action begins with a digit or with a parenthesis. -/
theorem IsSharedLine.exists_eq_cons (h : IsSharedLine line) (hline : isRemark line = false) :
    ∃ c rest, line = c :: rest ∧ (c.isDigit = true ∨ c = '(') := by
  cases h with
  | remark hremark =>
    rw [hline] at hremark
    cases hremark
  | lasting time duration =>
    obtain ⟨c, rest, heq, hc⟩ := exists_lineOf_eq_cons
    exact ⟨c, rest, heq, .inl hc⟩
  | timed time =>
    obtain ⟨c, rest, heq, hc⟩ := exists_lineOf_eq_cons
    exact ⟨c, rest, heq, .inl hc⟩
  | step => exact ⟨'(', _, rfl, .inr rfl⟩

/-- An announcement is no action. -/
theorem isRemark_of_announces (h : IsSharedLine (trim line)) (hline : announces line = true) :
    isRemark (trim line) = true := by
  obtain ⟨front, back, heq, hfront, hback⟩ := exists_append_trim line
  generalize trim line = inner at h heq
  subst heq
  have hquiet {shown : List Char}
      (hshown : announces (front ++ (shown ++ back)) = false)
      (hline : announces (front ++ (shown ++ back)) = true) : isRemark shown = true := by
    rw [hshown] at hline
    cases hline
  cases h with
  | remark hremark => exact hremark
  | lasting time duration hnames =>
    refine hquiet (announces_lineOf (fun token htoken => (hnames token htoken).2) ?_ hfront hback)
      hline
    exact fun hcolon => (of_mem_durationText hcolon).2 rfl
  | timed time hnames hbehind =>
    exact hquiet (announces_lineOf (fun token htoken => (hnames token htoken).2) hbehind.colonFree
      hfront hback) hline
  | step hnames =>
    refine hquiet (announces_of_colonFree ?_) hline
    rw [List.mem_append, List.mem_append]
    rintro (h | h | h)
    · exact absurd (hfront _ h) (by decide)
    · rcases mem_grouped h with h | ⟨token, htoken, h⟩
      · exact absurd h (by decide)
      · exact (hnames token htoken).2 h
    · exact absurd (hback _ h) (by decide)

theorem keptLines_append (first second : List (List Char)) :
    keptLines (first ++ second) = keptLines first ++ keptLines second := by
  simp [keptLines]

theorem keptLines_eq_nil (h : ∀ line ∈ all, isRemark (trim line) = true) : keptLines all = [] := by
  simpa [keptLines] using h

theorem keptLines_afterAnnouncement (hshared : ∀ line ∈ all, IsSharedLine (trim line))
    (hfirst : AnnouncedFirst all) : keptLines (afterAnnouncement all) = keptLines all := by
  unfold afterAnnouncement
  cases hdrop : all.dropWhile fun line => !announces line with
  | nil => rfl
  | cons line rest =>
    have hsplit : all.takeWhile (fun line => !announces line) ++ (line :: rest) = all := by
      rw [← hdrop, List.takeWhile_append_dropWhile]
    have hannounces : announces line = true := by
      have hhead := List.head?_dropWhile_not (fun line => !announces line) all
      rw [hdrop] at hhead
      simpa using hhead
    have hmem : line ∈ all := by
      rw [← hsplit]
      simp
    have hfront : keptLines (all.takeWhile fun line => !announces line) = [] :=
      keptLines_eq_nil (hfirst ⟨line, hmem, hannounces⟩)
    have hline : keptLines [line] = [] := by
      refine keptLines_eq_nil fun other hother => ?_
      rw [List.mem_singleton.mp hother]
      exact isRemark_of_announces (hshared line hmem) hannounces
    conv_rhs => rw [← hsplit]
    rw [keptLines_append, hfront, List.nil_append, ← List.singleton_append, keptLines_append, hline]
    rfl

theorem mem_keptLines (hshared : ∀ line ∈ all, IsSharedLine (trim line)) {line : List Char}
    (hline : line ∈ keptLines all) : IsSharedLine line ∧ isRemark line = false := by
  rw [keptLines, List.mem_filter, List.mem_map] at hline
  obtain ⟨⟨raw, hraw, rfl⟩, hkept⟩ := hline
  exact ⟨hshared raw hraw, by simpa using hkept⟩

theorem bodyLines_eq_keptLines {text : String}
    (hshared : ∀ line ∈ lines text.toList, IsSharedLine (trim line))
    (hfirst : AnnouncedFirst (lines text.toList)) :
    bodyLines text = keptLines (lines text.toList) := by
  have hsuffix : ∀ line ∈ afterAnnouncement (lines text.toList), line ∈ lines text.toList := by
    intro line hline
    unfold afterAnnouncement at hline
    split at hline
    · exact hline
    · next heq =>
      exact (List.dropWhile_suffix _).subset (heq ▸ List.mem_cons_of_mem _ hline)
  have hfilter : ((afterAnnouncement (lines text.toList)).map trim).filter
      (fun line => !line.isEmpty && !isComment line) =
        keptLines (afterAnnouncement (lines text.toList)) := by
    refine List.filter_congr fun line hline => ?_
    obtain ⟨raw, hraw, rfl⟩ := List.mem_map.mp hline
    have hline := hshared raw (hsuffix raw hraw)
    cases hremark : isRemark (trim raw) with
    | true =>
      cases htrim : trim raw <;> simp_all [isRemark, isComment]
    | false =>
      obtain ⟨c, rest, heq, hc⟩ := hline.exists_eq_cons hremark
      have hmark : isComment (c :: rest) = false := by
        rcases hc with hc | rfl
        · simpa [isComment] using of_isDigit (P := fun d => !(d == ';' || d == '#')) (by decide) hc
        · rfl
      simp [heq, hmark]
  have hgoes : ∀ line ∈ keptLines (lines text.toList), (!opensStatistics line) = true := by
    intro line hline
    obtain ⟨hline, hremark⟩ := mem_keptLines hshared hline
    obtain ⟨c, rest, rfl, hc⟩ := hline.exists_eq_cons hremark
    rw [opensStatistics_cons hc]
    rfl
  simp only [bodyLines, hfilter, keptLines_afterAnnouncement hshared hfirst,
    takeWhile_eq_self hgoes]

theorem solutionLines_eq_keptLines (all : List (List Char)) :
    solutionLines all = (keptLines all).filterMap SolutionEntry.of? := by
  have hfilter : (fun line : List Char => !line.isEmpty && line.head? != some ';') =
      fun line => !isRemark line := by
    funext line
    simp [isRemark, bne]
  rw [solutionLines, hfilter, keptLines]

end Lines

/-! ## The actions on the lines -/

/-- The dialect that a text has as a solution file. -/
def fileDialect (text : String) : Dialect :=
  dialectOfLines (solutionLines (lines text.toList))

theorem dialectOfLines_mem (found : List SolutionEntry) :
    dialectOfLines found ∈ solutionDialects := by
  unfold dialectOfLines
  split_ifs <;> decide

/-- One stated duration makes a file temporal. -/
theorem dialectOfLines_eq_temporal {found : List SolutionEntry} {entry : SolutionEntry}
    (hentry : entry ∈ found) (hnumber : (bracketNumber? entry.rest).isSome = true) :
    dialectOfLines found = .temporal := by
  rw [dialectOfLines, if_pos (List.any_eq_true.mpr ⟨entry, hentry, hnumber⟩)]

theorem isReadAlike_of_mem_keptLines (settings : DurationSettings) {text : String}
    (hshared : ∀ line ∈ lines text.toList, IsSharedLine (trim line)) {line : List Char}
    (hline : line ∈ keptLines (lines text.toList)) :
    IsReadAlike (fileDialect text) settings line := by
  have hdialect : fileDialect text ∈ solutionDialects := dialectOfLines_mem _
  obtain ⟨hform, hremark⟩ := mem_keptLines hshared hline
  cases hform with
  | remark h =>
    rw [h] at hremark
    cases hremark
  | @lasting time duration name args hnames =>
    have hwords : ∀ token ∈ name :: args, IsWord token := fun token h => (hnames token h).1
    have htemporal : fileDialect text = .temporal := by
      obtain ⟨start, hstart⟩ := exists_float?_text time
      obtain ⟨d, hd⟩ := exists_float?_text duration
      have hentry : ⟨some start, grouped (name :: args), durationText duration, .quiet false⟩ ∈
          solutionLines (lines text.toList) := by
        rw [solutionLines_eq_keptLines]
        exact List.mem_filterMap.mpr ⟨_, hline, of?_lineOf hwords hstart⟩
      refine dialectOfLines_eq_temporal hentry ?_
      rw [bracketNumber?_durationText hd]
      rfl
    rw [htemporal]
    exact isReadAlike_lasting settings duration hwords
  | timed time hnames hbehind =>
    exact isReadAlike_timed settings hdialect (fun token h => (hnames token h).1) hbehind
  | step hnames => exact isReadAlike_step settings hdialect fun token h => (hnames token h).1

/-- Lines that are read alike give actions that are related one by one, as the same number of actions
precedes them for both readers. -/
theorem forall₂_actions {dialect : Dialect} {settings : DurationSettings}
    {R : Action → Action → Prop} {kept : List (List Char)}
    (hread : ∀ line ∈ kept, ∃ entry, SolutionEntry.of? line = some entry ∧ ∀ position, ∃ a b,
      actionOnLine dialect settings position line = some a ∧
        entry.toAction? dialect settings position = some b ∧ R a b) (position : ℕ) :
    List.Forall₂ R (actionsOn dialect settings position kept)
      (solutionActions dialect settings position (kept.filterMap SolutionEntry.of?)) := by
  induction kept generalizing position with
  | nil => exact .nil
  | cons line rest ih =>
    obtain ⟨entry, hentry, hactions⟩ := hread line (by simp)
    obtain ⟨a, b, ha, hb, hrelated⟩ := hactions position
    have hrest := ih (fun other hother => hread other (List.mem_cons_of_mem _ hother))
      (position + 1)
    simp only [actionsOn, ha, List.filterMap_cons, hentry, solutionActions, hb]
    exact .cons hrelated hrest

/-! ## Numbers and durations -/

theorem ReadAlike.withId {a b : Action} (h : ReadAlike a b) (id : String) :
    ReadAlike { a with id } { b with id } :=
  ⟨rfl, h.name, h.args, h.start, h.startBits, h.effects, h.finish⟩

theorem ReadAlike.place_eq {a b : Action} (h : ReadAlike a b) : a.place = b.place := by
  rw [Action.place, Action.place, h.start, h.startBits]

theorem DurationsRead.withId {dialect : Dialect} {settings : DurationSettings} {a b : Action}
    (h : DurationsRead dialect settings a b) (id : String) :
    DurationsRead dialect settings { a with id } { b with id } := by
  cases h with
  | stated hrule hduration => exact .stated hrule hduration
  | timed hrule hdialect hfirst hsecond => exact .timed hrule hdialect hfirst hsecond
  | step hrule hfirst hsecond => exact .step hrule hfirst hsecond

/-- Whether both readers have the same duration for the line of an action: it states one, or there is
no difference in what they have for lines that state none. -/
def SharesDuration (dialect : Dialect) (settings : DurationSettings) (a : Action) : Prop :=
  a.rule = some "bracket-duration" ∨
    (if a.rule = some "timed-paren" then settings.unstated else settings.classicalStep) =
      fallbackDuration dialect settings

/-- Whether there is one duration for all lines that state none, and not one that is replaced. -/
structure HaveOneFallback (settings : DurationSettings) : Prop where
  step_eq : settings.classicalStep = settings.unstated
  pos : 0.0 < settings.unstated

theorem HaveOneFallback.fallbackDuration_eq {settings : DurationSettings}
    (h : HaveOneFallback settings) (dialect : Dialect) :
    fallbackDuration dialect settings = settings.unstated := by
  have hnot : ¬settings.unstated ≤ 0.0 := fun hle =>
    lt_irrefl _ (lt_iff.mp (Binary64.lt_of_lt_of_le h.pos hle)).2.2
  cases dialect <;> simp [fallbackDuration, statedDuration, hnot, h.step_eq]

namespace DurationsRead

variable {dialect : Dialect} {settings : DurationSettings} {a b : Action}

theorem duration_eq (h : DurationsRead dialect settings a b)
    (hshares : SharesDuration dialect settings a) : a.duration = b.duration := by
  cases h with
  | stated _ hduration => exact hduration
  | timed hrule _ hfirst hsecond =>
    rw [SharesDuration, hrule] at hshares
    rw [hfirst, hsecond, ← hshares.resolve_left (by decide)]
    rfl
  | step hrule hfirst hsecond =>
    rw [SharesDuration, hrule] at hshares
    rw [hfirst, hsecond, ← hshares.resolve_left (by decide)]
    rfl

theorem sharesDuration (h : DurationsRead dialect settings a b)
    (hfallback : dialect = .classical ∨ HaveOneFallback settings) :
    SharesDuration dialect settings a := by
  cases h with
  | stated hrule => exact .inl hrule
  | timed hrule hdialect =>
    have hone := hfallback.resolve_left hdialect
    refine .inr ?_
    rw [if_pos hrule, hone.fallbackDuration_eq]
  | step hrule =>
    refine .inr ?_
    rw [if_neg (by rw [hrule]; decide)]
    rcases hfallback with rfl | hone
    · rfl
    · rw [hone.fallbackDuration_eq, hone.step_eq]

end DurationsRead

/-- An action without the rule that recognised its line. -/
def withoutRule (a : Action) : Action :=
  { a with rule := none }

theorem ReadAlike.withoutRule_eq {a b : Action} (h : ReadAlike a b)
    (hduration : a.duration = b.duration) : withoutRule a = withoutRule b := by
  have hfinish := h.finish hduration
  obtain ⟨hid, hname, hargs, hstart, hbits, heffects, -⟩ := h
  cases a
  cases b
  simp_all [withoutRule]

/-- Whether every number in brackets behind a call stands right behind it, and so is a duration for
both readers. -/
def NumbersBehindCalls (text : String) : Prop :=
  ∀ entry ∈ solutionLines (lines text.toList), IsBracketedBehind entry

instance (text : String) : Decidable (NumbersBehindCalls text) :=
  inferInstanceAs (Decidable (∀ entry ∈ solutionLines (lines text.toList), _))

/-! ## All lines -/

section Texts

variable (settings : DurationSettings) {text : String}

theorem forall₂_of_shared (hshared : ∀ line ∈ lines text.toList, IsSharedLine (trim line))
    (hfirst : AnnouncedFirst (lines text.toList)) :
    List.Forall₂ (fun a b => ReadAlike a b ∧
        (NumbersBehindCalls text → DurationsRead (fileDialect text) settings a b))
      (actionsOn (fileDialect text) settings 0 (bodyLines text))
      (solutionActions (fileDialect text) settings 0 (solutionLines (lines text.toList))) := by
  rw [bodyLines_eq_keptLines hshared hfirst, solutionLines_eq_keptLines]
  refine forall₂_actions (fun line hline => ?_) 0
  obtain ⟨entry, hentry, hread⟩ := isReadAlike_of_mem_keptLines settings hshared hline
  refine ⟨entry, hentry, fun position => ?_⟩
  obtain ⟨a, b, ha, hb, halike, hdurations⟩ := hread position
  refine ⟨a, b, ha, hb, halike, fun hnumbers => hdurations (hnumbers entry ?_)⟩
  rw [solutionLines_eq_keptLines]
  exact List.mem_filterMap.mpr ⟨line, hline, hentry⟩

variable {settings} in
theorem sharesDuration_of_mem {dialect : Dialect} {first second : List Action}
    (hread : List.Forall₂ (DurationsRead dialect settings) first second)
    (hfallback : dialect = .classical ∨ HaveOneFallback settings) :
    ∀ a ∈ first, SharesDuration dialect settings a := by
  have hshares : List.Forall₂ (fun a _ => SharesDuration dialect settings a ∧ True) first second :=
    hread.imp fun _ _ h => ⟨h.sharesDuration hfallback, trivial⟩
  exact ((List.forall₂_and_left first second).mp hshares).1

variable {settings} in
theorem map_withoutRule_eq {dialect : Dialect} {first second : List Action}
    (halike : List.Forall₂ ReadAlike first second)
    (hread : List.Forall₂ (DurationsRead dialect settings) first second)
    (hshares : ∀ a ∈ first, SharesDuration dialect settings a) :
    first.map withoutRule = second.map withoutRule := by
  induction halike with
  | nil => rfl
  | cons hhead _ ih =>
    obtain ⟨hlasts, hrest⟩ := List.forall₂_cons.mp hread
    rw [List.forall_mem_cons] at hshares
    rw [List.map_cons, List.map_cons, hhead.withoutRule_eq (hlasts.duration_eq hshares.1),
      ih hrest hshares.2]

/-- **The two readers agree.**  A text of shared lines, in which no action stands in front of an
announcement, has a plan for both readers or for none of them.  Both plans hold the same actions, in
the same order, at the same times and with the same effects.  If no number in brackets is hidden in
what stands behind a call, then an action lasts equally long in both plans as soon as both readers
have the same duration for its line; and if that is so of all actions, then nothing but the names of
the rules is left to tell the plans apart. -/
theorem readers_agree (hshared : ∀ line ∈ lines text.toList, IsSharedLine (trim line))
    (hfirst : AnnouncedFirst (lines text.toList)) :
    (planIn? (fileDialect text) settings text = none ∧ solution? settings text = none) ∨
    ∃ p q, planIn? (fileDialect text) settings text = some p ∧ solution? settings text = some q ∧
      q.dialect = fileDialect text ∧ List.Forall₂ ReadAlike p.actions q.actions ∧
      (NumbersBehindCalls text →
        List.Forall₂ (fun a b => SharesDuration (fileDialect text) settings a →
          a.duration = b.duration) p.actions q.actions ∧
        (fileDialect text = .classical ∨ HaveOneFallback settings →
          ∀ a ∈ p.actions, SharesDuration (fileDialect text) settings a) ∧
        ((∀ a ∈ p.actions, SharesDuration (fileDialect text) settings a) →
          p.actions.map withoutRule = q.actions.map withoutRule ∧
            p.totalDuration = q.totalDuration)) := by
  have hactions := forall₂_of_shared settings hshared hfirst
  have hdialect : dialectOfLines (solutionLines (lines text.toList)) = fileDialect text := rfl
  unfold planIn? solution?
  simp only [hdialect]
  generalize actionsOn (fileDialect text) settings 0 (bodyLines text) = first at hactions
  generalize solutionActions (fileDialect text) settings 0 (solutionLines (lines text.toList)) =
    second at hactions
  cases hactions with
  | nil => exact .inl ⟨rfl, rfl⟩
  | cons hhead hrest =>
    have hplans := Plan.forall₂_actions_assemble
      (fun _ _ id h => ⟨h.1.withId id, fun hnumbers => (h.2 hnumbers).withId id⟩)
      (fun _ _ h => h.1.place_eq) (.cons hhead hrest) (fileDialect text) (searchReport text)
      { planCost := (Header.ofLines (lines text.toList)).cost,
        planningTime := (Header.ofLines (lines text.toList)).time }
    have halike := hplans.imp fun _ _ h => h.1
    refine .inr ⟨_, _, rfl, rfl, rfl, halike, fun hnumbers => ?_⟩
    have hread := hplans.imp fun _ _ h => h.2 hnumbers
    refine ⟨hread.imp fun _ _ h => h.duration_eq, sharesDuration_of_mem hread, fun hshares => ?_⟩
    have hsame := map_withoutRule_eq halike hread hshares
    refine ⟨hsame, ?_⟩
    -- the total is computed from the ends of the actions, which the rules have no part in
    have hends := congrArg (List.map Action.finish) hsame
    simp only [List.map_map] at hends
    exact congrArg (fun ends : List Float => ends.foldl larger 0.0) hends

end Texts

/-- A file with a line of each kind. -/
theorem ferry_read_alike :
    let text := "; Cost: 3\n0: (Load P1) [2.5]\n2.5: (sail) increase (fuel P1) 5\n  (unload p1)"
    ((∀ line ∈ lines text.toList, IsSharedLine (trim line)) ∧
      AnnouncedFirst (lines text.toList)) ∧
    ∃ p q, planIn? .temporal {} text = some p ∧ solution? {} text = some q ∧
      p.actions.map withoutRule = q.actions.map withoutRule ∧
        p.totalDuration = q.totalDuration := by
  intro text
  have hdialect : fileDialect text = .temporal := by decide +kernel
  have hlines : (lines text.toList).map trim =
      ["; Cost: 3".toList,
        lineOf ⟨['0'], [], by simp, by simp, by simp⟩ ["Load".toList, "P1".toList]
          (durationText ⟨['2'], ['5'], by simp, by simp, by simp⟩),
        lineOf ⟨['2'], ['5'], by simp, by simp, by simp⟩ ["sail".toList]
          " increase (fuel P1) 5".toList,
        grouped ["unload".toList, "p1".toList]] := by
    decide +kernel
  have hshared : ∀ line ∈ lines text.toList, IsSharedLine (trim line) := by
    refine List.forall_mem_map.mp ?_
    rw [hlines]
    simp only [List.forall_mem_cons]
    have hopen : IsOpen " increase (fuel P1) 5".toList :=
      isOpen_effects .increase (by decide) (show ':' ∉ " (fuel P1) 5".toList by decide)
    exact ⟨.remark rfl, .lasting _ _ (by decide), .timed _ (by decide) hopen, .step (by decide),
      by simp⟩
  have hfirst : AnnouncedFirst (lines text.toList) := by decide +kernel
  refine ⟨⟨hshared, hfirst⟩, ?_⟩
  have hagree := readers_agree {} hshared hfirst
  rw [hdialect] at hagree
  rcases hagree with ⟨-, hnone⟩ | ⟨p, q, hp, hq, -, -, hdurations⟩
  · have hsome : (solution? {} text).isSome = true := by decide +kernel
    rw [hnone] at hsome
    cases hsome
  · have hnumbers : NumbersBehindCalls text := by decide +kernel
    have hone : HaveOneFallback {} := ⟨rfl, by decide +kernel⟩
    obtain ⟨-, hshares, hsame⟩ := hdurations hnumbers
    exact ⟨p, q, hp, hq, hsame (hshares (.inr hone))⟩


/-- The readers do not agree on every text of shared lines.  An action in front of an announcement is
lost to one of them; where a line states no duration, the settings can tell the readers apart; and a
number in brackets among the effects is a duration for the reader of solution files only. -/
theorem not_readers_agree :
    (let text := "0: (a)\n; found plan:"
     (∀ line ∈ lines text.toList, IsSharedLine (trim line)) ∧ fileDialect text = .classical ∧
      (planIn? .classical {} text).isSome = false ∧ (solution? {} text).isSome = true) ∧
    (let text := "0: (refuel t1) increase (fuel t1) 5"
     let settings : Settings := { durations := { unstated := 2.0 } }
     (∀ line ∈ lines text.toList, IsSharedLine (trim line)) ∧ fileDialect text = .numeric ∧
      settings.fault?.isSome = false ∧
      (planIn? .numeric settings.durations text).map Plan.totalDuration = some 2.0 ∧
      (solution? settings.durations text).map Plan.totalDuration = some 1.0) ∧
    (let text := "0: (a) increase (f [3]) 5"
     (∀ line ∈ lines text.toList, IsSharedLine (trim line)) ∧ fileDialect text = .temporal ∧
      (planIn? .temporal {} text).map Plan.totalDuration = some 1.0 ∧
      (solution? {} text).map Plan.totalDuration = some 3.0) := by
  have hzero (text : String) (name : List Char) (args : List (List Char)) (behind : List Char)
      (more : List (List Char)) (hnames : ∀ token ∈ name :: args, IsName token)
      (hbehind : IsOpen behind) (hmore : ∀ line ∈ more, isRemark line = true)
      (hlines : (lines text.toList).map trim =
        lineOf ⟨['0'], [], by simp, by simp, by simp⟩ (name :: args) behind :: more) :
      ∀ line ∈ lines text.toList, IsSharedLine (trim line) := by
    refine List.forall_mem_map.mp ?_
    rw [hlines, List.forall_mem_cons]
    exact ⟨.timed _ hnames hbehind, fun line hline => .remark (hmore line hline)⟩
  refine ⟨⟨?_, ?_⟩, ⟨?_, ?_⟩, ?_, ?_⟩
  · exact hzero _ ['a'] [] [] ["; found plan:".toList] (by decide) (by decide) (by decide)
      (by decide +kernel)
  · decide +kernel
  · exact hzero _ "refuel".toList ["t1".toList] " increase (fuel t1) 5".toList [] (by decide)
      (by decide) (by decide) (by decide +kernel)
  · decide +kernel
  · exact hzero _ ['a'] [] " increase (f [3]) 5".toList [] (by decide) (by decide) (by decide)
      (by decide +kernel)
  · decide +kernel

end PlanPlayback.Transcript
