import PlanPlayback.Proofs.Binary64.TotalOrder
import PlanPlayback.Proofs.Plan.Assembly

/-!
# A plan is an arrangement of its actions

`Plan.IsArrangementOf` says what a plan has to do with the actions it was made from, without a word
about sorting: they are all there and nothing but their identifiers is new, they are in the total
order of their starts, those that start together have kept their order, and they are numbered from
zero on.  This leaves no freedom (`IsArrangementOf.actions_eq`): two arrangements of the same actions
have the same actions.

## Strategy

The keys by which actions are sorted are the total order of their starts (`Action.place_le_iff`,
`Action.place_eq_iff`).  From there on, keys are compared as whole numbers.

Identifiers are the only thing that numbering changes, so everything else is read off the list
before it was numbered, with its identifiers taken away (`map_unnumbered_numbered`).  Of that list,
`mergeSort` is known to be sorted and to be a permutation.  That it keeps the order of actions that
start together follows from one fact: a part of the list that is in order already survives as it
is, and the actions that start at one point in time are such a part (`filter_sorted`).
-/

namespace PlanPlayback

open Binary64

namespace Action

/-- An action without its identifier. -/
def unnumbered (a : Action) : Action :=
  { a with id := "" }

/-! ## The order of starts -/

/-- The total order of the starts of actions.  It is that of numbers; what is no number comes before
all numbers if it has a minus sign, and behind all of them otherwise. -/
inductive StartsNoLaterThan (a b : Action) : Prop where
  | numbers (ha : a.start.isNaN = false) (hb : b.start.isNaN = false) (h : TotalLE a.start b.start)
  | before (ha : a.start.isNaN = true) (hminus : a.startBits.minus = true)
      (hb : b.start.isNaN = false)
  | behind (ha : a.start.isNaN = false) (hb : b.start.isNaN = true)
      (hplus : b.startBits.minus = false)
  | neither (ha : a.start.isNaN = true) (hb : b.start.isNaN = true)
      (h : a.startBits.TotalLE b.startBits)

/-- Whether two actions start together: starts that are no numbers have to have the same bits. -/
def StartsWith (a b : Action) : Prop :=
  a.start = b.start ∧ (a.start.isNaN = true → a.startBits = b.startBits)

instance (a b : Action) : Decidable (a.StartsWith b) :=
  inferInstanceAs (Decidable (_ ∧ (_ → _)))

/-- The places of two actions are in order exactly if their starts are. -/
theorem place_le_iff {a b : Action} : a.place ≤ b.place ↔ a.StartsNoLaterThan b := by
  cases ha : a.start.isNaN <;> cases hb : b.start.isNaN
  · have ha' := isNaN_eq_false_iff.mp ha
    have hb' := isNaN_eq_false_iff.mp hb
    rw [place_of_isNumber ha', place_of_isNumber hb', orderKey_le_iff ha' hb']
    refine ⟨.numbers ha hb, ?_⟩
    rintro (⟨-, -, h⟩ | ⟨hnone, -, -⟩ | ⟨-, hnone, -⟩ | ⟨hnone, -, -⟩)
    case numbers => exact h
    all_goals simp_all
  · have ha' := isNaN_eq_false_iff.mp ha
    rw [place_of_isNumber ha', place_of_isNaN hb]
    cases hsign : b.startBits.minus with
    | false => exact iff_of_true (orderKey_lt_totalKey_code hsign ha').le (.behind ha hb hsign)
    | true =>
      refine iff_of_false (not_le.mpr (totalKey_code_lt_orderKey hsign ha')) ?_
      rintro (⟨-, hnumber, -⟩ | ⟨-, -, hnumber⟩ | ⟨-, -, hplus⟩ | ⟨hnone, -, -⟩)
      all_goals simp_all
  · have hb' := isNaN_eq_false_iff.mp hb
    rw [place_of_isNaN ha, place_of_isNumber hb']
    cases hsign : a.startBits.minus with
    | true => exact iff_of_true (totalKey_code_lt_orderKey hsign hb').le (.before ha hsign hb)
    | false =>
      refine iff_of_false (not_le.mpr (orderKey_lt_totalKey_code hsign hb')) ?_
      rintro (⟨hnumber, -, -⟩ | ⟨-, hminus, -⟩ | ⟨hnumber, -, -⟩ | ⟨-, hnone, -⟩)
      all_goals simp_all
  · rw [place_of_isNaN ha, place_of_isNaN hb, totalKey_code_le_iff]
    refine ⟨.neither ha hb, ?_⟩
    rintro (⟨hnumber, -, -⟩ | ⟨-, -, hnumber⟩ | ⟨hnumber, -, -⟩ | ⟨-, -, h⟩)
    case neither => exact h
    all_goals simp_all

/-- Starts that are no numbers stand at both ends, by their signs and payloads. -/
example :
    let sail := Action.make "sail" [] 2.0 1.0
    let lost (startBits : NaNBits) := { sail with start := 0.0 / 0.0, startBits }
    [lost (.quiet true), lost { minus := true, payload := 7 }, sail,
      lost { minus := false, payload := 7 }, lost (.quiet false)].Pairwise
        fun a b => a.place < b.place := by
  decide +kernel

/-- Two actions have the same place exactly if they start together. -/
theorem place_eq_iff {a b : Action} : a.place = b.place ↔ a.StartsWith b := by
  constructor
  · intro heq
    have hle := place_le_iff.mp heq.le
    cases hle with
    | numbers ha hb =>
      rw [place_of_isNumber (isNaN_eq_false_iff.mp ha),
        place_of_isNumber (isNaN_eq_false_iff.mp hb)] at heq
      exact ⟨orderKey_injective heq, fun hnone => absurd (ha.symm.trans hnone) Bool.false_ne_true⟩
    | neither ha hb =>
      rw [place_of_isNaN ha, place_of_isNaN hb] at heq
      exact ⟨eq_of_not_isNumber (not_isNumber_iff.mpr ha) (not_isNumber_iff.mpr hb),
        fun _ => eq_of_totalKey_code_eq heq⟩
    | before ha hminus hb =>
      rw [place_of_isNaN ha, place_of_isNumber (isNaN_eq_false_iff.mp hb)] at heq
      exact absurd heq (totalKey_code_lt_orderKey hminus (isNaN_eq_false_iff.mp hb)).ne
    | behind ha hb hplus =>
      rw [place_of_isNumber (isNaN_eq_false_iff.mp ha), place_of_isNaN hb] at heq
      exact absurd heq (orderKey_lt_totalKey_code hplus (isNaN_eq_false_iff.mp ha)).ne
  · rintro ⟨hstart, hbits⟩
    unfold place
    rw [← hstart]
    split_ifs with hnone
    · rw [hbits hnone]
    · rfl

end Action

/-- What a plan has to do with the actions it was made from. -/
structure Plan.IsArrangementOf (p : Plan) (actions : List Action) : Prop where
  rearranged : (p.actions.map Action.unnumbered).Perm (actions.map Action.unnumbered)
  ordered : p.actions.Pairwise Action.StartsNoLaterThan
  stable : ∀ a : Action,
    (p.actions.filter fun b => b.StartsWith a).map Action.unnumbered =
      (actions.filter fun b => b.StartsWith a).map Action.unnumbered
  numbered : ∀ (i : ℕ) (h : i < p.actions.length), p.actions[i].id = "action-" ++ toString i
  distinct : (p.actions.map Action.id).Nodup
  makespan_eq : p.makespan = p.totalDuration
  finish_le : ∀ a ∈ p.actions, a.finish.isNaN = false → a.finish ≤ p.totalDuration
  attained : p.totalDuration = 0.0 ∨ ∃ a ∈ p.actions, p.totalDuration = a.finish

namespace Plan

/-! ## Identifiers -/

theorem actionId_injective : Function.Injective actionId := by
  intro i j h
  exact Nat.repr_injective ((String.append_right_inj _).mp h)

theorem map_id_numbered (position : ℕ) (actions : List Action) :
    (numbered position actions).map Action.id =
      (List.range' position actions.length).map actionId := by
  induction actions generalizing position with
  | nil => rfl
  | cons a rest ih => rw [numbered, List.map_cons, ih, List.length_cons, List.range'_succ,
      List.map_cons]

/-- No two actions of a plan have the same identifier. -/
theorem nodup_id_numbered (position : ℕ) (actions : List Action) :
    ((numbered position actions).map Action.id).Nodup := by
  have hpositions : (List.range' position actions.length).Nodup := List.nodup_range'
  rw [map_id_numbered]
  exact hpositions.map actionId_injective

theorem map_unnumbered_numbered (position : ℕ) (actions : List Action) :
    (numbered position actions).map Action.unnumbered = actions.map Action.unnumbered := by
  induction actions generalizing position with
  | nil => rfl
  | cons a rest ih => rw [numbered, List.map_cons, ih, List.map_cons, Action.unnumbered,
      Action.unnumbered]

/-- Identifiers play no part in where actions start. -/
theorem map_unnumbered_filter (a : Action) (actions : List Action) :
    (actions.filter fun b => b.StartsWith a).map Action.unnumbered =
      (actions.map Action.unnumbered).filter fun b => b.StartsWith a := by
  rw [List.filter_map]
  rfl

/-! ## Actions that start together -/

/-- Sorting leaves the actions that start together as they are. -/
theorem filter_sorted (a : Action) (actions : List Action) :
    (sorted actions).filter (fun b => b.StartsWith a) =
      actions.filter fun b => b.StartsWith a := by
  have hplace (b : Action) (hb : b ∈ actions.filter fun b => b.StartsWith a) :
      b.place = a.place :=
    Action.place_eq_iff.mpr (by simpa using (List.mem_filter.mp hb).2)
  have htogether : (actions.filter fun b => b.StartsWith a).Pairwise fun b c =>
      decide (b.place ≤ c.place) = true := by
    refine List.pairwise_of_forall_mem_list ?_
    intro b hb c hc
    rw [hplace b hb, hplace c hc]
    exact decide_eq_true le_rfl
  have hkept : (actions.filter fun b => b.StartsWith a).Sublist
      ((sorted actions).filter fun b => b.StartsWith a) := by
    have hsublist : (actions.filter fun b => b.StartsWith a).Sublist (sorted actions) :=
      List.sublist_mergeSort earlier_trans earlier_total htogether List.filter_sublist
    simpa using hsublist.filter fun b => b.StartsWith a
  have hperm : (sorted actions).Perm actions := List.mergeSort_perm actions _
  exact (hkept.eq_of_length (hperm.filter _).length_eq.symm).symm

/-! ## Assembly -/

variable (dialect : Dialect) (actions : List Action) (statistics : Statistics)

/-- **A plan is an arrangement of the actions it is assembled from.** -/
theorem isArrangementOf_assemble :
    (assemble dialect actions statistics).IsArrangementOf actions := by
  have hactions : (assemble dialect actions statistics).actions = numbered 0 (sorted actions) := rfl
  have hlatest : (assemble dialect actions statistics).totalDuration =
      ((assemble dialect actions statistics).actions.map Action.finish).foldl larger 0.0 := rfl
  obtain ⟨-, -, hbelow, hattained⟩ := foldl_larger isNumber_zero
    ((assemble dialect actions statistics).actions.map Action.finish)
  rw [← hlatest] at hbelow hattained
  refine ⟨?rearranged, ?ordered, ?stable, ?numbered, ?distinct, rfl, ?finish_le, ?attained⟩
  case rearranged =>
    rw [hactions, map_unnumbered_numbered]
    exact (List.mergeSort_perm actions _).map _
  case ordered => exact pairwise_assemble.imp fun hle => Action.place_le_iff.mp hle
  case stable =>
    intro a
    rw [hactions, map_unnumbered_filter, map_unnumbered_numbered, ← map_unnumbered_filter,
      filter_sorted]
  case numbered =>
    intro i h
    simp only [hactions, numbered_eq_mapIdx, List.getElem_mapIdx, Nat.zero_add]
    rfl
  case distinct => exact nodup_id_numbered 0 (sorted actions)
  case finish_le =>
    intro a ha hfinish
    exact hbelow _ (List.mem_map_of_mem ha) (isNaN_eq_false_iff.mp hfinish)
  case attained =>
    refine hattained.imp_right fun hmem => ?_
    obtain ⟨a, ha, heq⟩ := List.mem_map.mp hmem
    exact ⟨a, ha, heq.symm⟩

/-! ## Uniqueness -/

/-- Two lists that are in order are the same if they have the same actions at every start. -/
theorem eq_of_filter_eq {first second : List Action} (hfirst : first.Pairwise Action.StartsNoLaterThan)
    (hsecond : second.Pairwise Action.StartsNoLaterThan)
    (h : ∀ a : Action, first.filter (fun b => b.StartsWith a) =
      second.filter fun b => b.StartsWith a) : first = second := by
  have hself (a : Action) : a.StartsWith a := ⟨rfl, fun _ => rfl⟩
  induction first generalizing second with
  | nil =>
    cases second with
    | nil => rfl
    | cons b rest => simpa [hself] using h b
  | cons a rest ih =>
    cases second with
    | nil => simpa [hself] using h a
    | cons b rest' =>
      have ha : a ∈ b :: rest' := by
        have hmem : a ∈ (b :: rest').filter fun c => c.StartsWith a := h a ▸ by simp [hself]
        exact (List.mem_filter.mp hmem).1
      have hb : b ∈ a :: rest := by
        have hmem : b ∈ (a :: rest).filter fun c => c.StartsWith b := h b ▸ by simp [hself]
        exact (List.mem_filter.mp hmem).1
      rw [List.pairwise_cons] at hfirst hsecond
      -- each of the two heads is in the other list, so neither starts before the other
      have htogether : b.StartsWith a := by
        refine Action.place_eq_iff.mp (le_antisymm ?_ ?_)
        · rcases List.mem_cons.mp ha with rfl | ha
          · exact le_rfl
          · exact Action.place_le_iff.mpr (hsecond.1 a ha)
        · rcases List.mem_cons.mp hb with rfl | hb
          · exact le_rfl
          · exact Action.place_le_iff.mpr (hfirst.1 b hb)
      have hhead : a = b := by
        have hcons := h a
        rw [List.filter_cons_of_pos (by simp [hself]),
          List.filter_cons_of_pos (by simp [htogether])] at hcons
        exact (List.cons.inj hcons).1
      subst hhead
      congr 1
      refine ih hfirst.2 hsecond.2 fun c => ?_
      have hcons := h c
      rw [List.filter_cons, List.filter_cons] at hcons
      split_ifs at hcons with hhere
      · exact (List.cons.inj hcons).2
      · exact hcons

variable {actions}

theorem IsArrangementOf.pairwise_unnumbered {p : Plan} (h : p.IsArrangementOf actions) :
    (p.actions.map Action.unnumbered).Pairwise Action.StartsNoLaterThan := by
  refine List.pairwise_map.mpr (h.ordered.imp fun {a b} hstarts => ?_)
  have hle : a.unnumbered.place ≤ b.unnumbered.place :=
    (Action.place_le_iff (a := a) (b := b)).mpr hstarts
  exact Action.place_le_iff.mp hle

/-- An arrangement is determined by the actions it is made from. -/
theorem IsArrangementOf.actions_eq {p q : Plan} (hp : p.IsArrangementOf actions)
    (hq : q.IsArrangementOf actions) : p.actions = q.actions := by
  have hsame : p.actions.map Action.unnumbered = q.actions.map Action.unnumbered := by
    refine eq_of_filter_eq hp.pairwise_unnumbered hq.pairwise_unnumbered fun start => ?_
    rw [← map_unnumbered_filter, ← map_unnumbered_filter, hp.stable, hq.stable]
  have hlength : p.actions.length = q.actions.length := by
    simpa using congrArg List.length hsame
  refine List.ext_getElem hlength fun i hi hi' => ?_
  have hid : p.actions[i].id = q.actions[i].id := (hp.numbered i hi).trans (hq.numbered i hi').symm
  have hrest : p.actions[i].unnumbered = q.actions[i].unnumbered := by
    have hget := List.getElem_of_eq hsame (i := i) (by simpa using hi)
    simpa using hget
  calc p.actions[i] = { p.actions[i].unnumbered with id := p.actions[i].id } := rfl
    _ = { q.actions[i].unnumbered with id := q.actions[i].id } := by rw [hid, hrest]
    _ = q.actions[i] := rfl

end Plan

end PlanPlayback
