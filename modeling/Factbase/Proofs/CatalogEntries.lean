import Mathlib.Data.Finset.Card
import Mathlib.Data.List.Induction
import Factbase.Catalog

/-! # What the catalog says about an attribute

The values of an attribute are seen once, and what the survey remembers after each of them is a
summary of those that were seen (`Survey.Summarizes`): how many there were, the first ones that
differ up to the limit, whether there were more, and the votes for their types. Below the limit a
value is new exactly when none before it has its canonical text; from the limit on nothing more is
remembered, and a value that is not found is one too many.

The type that is named is the one with more than half of the votes (`Tally.majority_eq_iff`). As no
two types can have that, it is found by looking for the most votes, in whatever order one looks and
however ties are broken (`Tally.elect_eq_majority`). -/

namespace Factbase

/-! ## First occurrences -/

section Lists

variable {α : Type}

/-- The beginning of a list that has grown by an element. -/
theorem take_concat_eq_ite (as : List α) (a : α) (n : Nat) :
    (as ++ [a]).take n = if as.length < n then as ++ [a] else as.take n := by
  split
  · next hroom =>
    rw [List.take_of_length_le]
    rw [List.length_append]
    exact hroom
  · next hfull => exact List.take_append_of_le_length (not_lt.1 hfull)

/-- An element at the end is a first occurrence unless it repeats one. -/
theorem eraseDupsBy_concat (same : α → α → Bool) (as : List α) (a : α) :
    (as ++ [a]).eraseDupsBy same =
      if (as.eraseDupsBy same).any (same a) then as.eraseDupsBy same
      else as.eraseDupsBy same ++ [a] := by
  have hloop : ∀ kept, List.eraseDupsBy.loop same (as ++ [a]) kept =
      if (List.eraseDupsBy.loop same as kept).any (same a)
      then List.eraseDupsBy.loop same as kept
      else List.eraseDupsBy.loop same as kept ++ [a] := by
    induction as with
    | nil =>
      intro kept
      simp only [List.nil_append, List.eraseDupsBy.loop, List.any_reverse]
      cases kept.any (same a) <;> simp
    | cons b rest ih =>
      intro kept
      rw [List.cons_append, List.eraseDupsBy.loop, List.eraseDupsBy.loop]
      cases kept.any (same b)
      · exact ih (b :: kept)
      · exact ih kept
  exact hloop []

end Lists

/-- The values other than null. -/
def presentValues (values : List Atom) : List Atom := values.filter fun v => !v.isNull

/-- The canonical texts of the values other than null. -/
def presentTexts (values : List Atom) : Finset String :=
  ((presentValues values).map Atom.canonical).toFinset

/-- The first of the values other than null that have one canonical text, in the order in which
they come. -/
def firstValues (values : List Atom) : List Atom :=
  (presentValues values).eraseDupsBy fun v u => v.canonical == u.canonical

section Values

variable {values : List Atom} {v : Atom}

theorem presentValues_concat_of_isNull (hv : v.isNull = true) :
    presentValues (values ++ [v]) = presentValues values := by
  simp [presentValues, hv]

theorem presentValues_concat (hv : v.isNull = false) :
    presentValues (values ++ [v]) = presentValues values ++ [v] := by
  simp [presentValues, hv]

/-- Null is not among the first values. -/
theorem firstValues_concat_of_isNull (hv : v.isNull = true) :
    firstValues (values ++ [v]) = firstValues values := by
  rw [firstValues, presentValues_concat_of_isNull hv, firstValues]

/-- A value is the first of its kind unless one before it has its canonical text. -/
theorem firstValues_concat (hv : v.isNull = false) :
    firstValues (values ++ [v]) =
      if v.canonical ∈ (firstValues values).map Atom.canonical then firstValues values
      else firstValues values ++ [v] := by
  have hany : ((firstValues values).any fun u => v.canonical == u.canonical) = true ↔
      v.canonical ∈ (firstValues values).map Atom.canonical := by
    rw [List.any_eq_true, List.mem_map]
    exact exists_congr fun u => and_congr_right fun _ => beq_iff_eq.trans eq_comm
  rw [firstValues, presentValues_concat hv, eraseDupsBy_concat, ← firstValues]
  exact if_congr hany rfl rfl

/-- There are as many first values as canonical texts of values other than null. -/
theorem length_firstValues (values : List Atom) :
    (firstValues values).length = (presentTexts values).card := by
  have heq : firstValues values = distinctBy Atom.canonical (presentValues values) :=
    distinctBy_eq_eraseDupsBy.symm
  have hnodup : ((firstValues values).map Atom.canonical).Nodup := by
    rw [heq]
    exact List.pairwise_map.2 pairwise_distinctBy
  have htexts : ((firstValues values).map Atom.canonical).toFinset = presentTexts values := by
    ext text
    rw [presentTexts, List.mem_toFinset, List.mem_toFinset, List.mem_map, List.mem_map, heq]
    constructor
    · rintro ⟨u, hu, rfl⟩
      exact ⟨u, mem_of_mem_distinctBy hu, rfl⟩
    · rintro ⟨u, hu, rfl⟩
      exact exists_mem_distinctBy Atom.canonical hu
  rw [← htexts, List.toFinset_card_of_nodup hnodup, List.length_map]

end Values

/-! ## Votes -/

namespace ValueType

/-- Only null abstains. -/
theorem ofAtom?_eq_none_iff {v : Atom} : ofAtom? v = none ↔ v.isNull = true := by
  cases v with
  | text s =>
    simp only [ofAtom?, Atom.isNull]
    split <;> simp
  | _ => simp [ofAtom?, Atom.isNull]

theorem isNull_of_ofAtom? {v : Atom} {k : ValueType} (h : ofAtom? v = some k) :
    v.isNull = false := by
  cases hv : v.isNull with
  | false => rfl
  | true => simp [ofAtom?_eq_none_iff.2 hv] at h

/-- No value votes for mixed types. -/
theorem ofAtom?_ne_mixed (v : Atom) : ofAtom? v ≠ some mixed := by
  cases v with
  | text s =>
    simp only [ofAtom?]
    split <;> simp
  | _ => simp [ofAtom?]

/-- The number of values that vote for a type. -/
def votesFor (values : List Atom) (k : ValueType) : Nat :=
  values.countP fun v => ofAtom? v == some k

theorem votesFor_concat (values : List Atom) (v : Atom) (k : ValueType) :
    votesFor (values ++ [v]) k = votesFor values k + if ofAtom? v = some k then 1 else 0 := by
  rw [votesFor, List.countP_append, List.countP_singleton, ← votesFor]
  exact congrArg _ (if_congr beq_iff_eq rfl rfl)

/-- The type with the most votes, of some types that are gone through in order, if it has more than
half of all votes, and mixed types otherwise. Between types with equally many votes `tie`
decides. -/
def elect (votes : ValueType → Nat) (total : Nat) (tie : ValueType → ValueType → Ordering)
    (kinds : List ValueType) : ValueType :=
  ((greatestBy? (fun j k => (compare (votes j) (votes k)).then (tie j k)) kinds).filter
    fun k => total < 2 * votes k).getD .mixed

end ValueType

/-- A list is gone through from the front, and of what was kept and the next element one is kept
that stands to both in a preorder. What is kept in the end is an element that stands so to all. -/
theorem rel_foldl_of_pick {α : Type} (le : α → α → Prop) (pick : α → α → α) (hrefl : ∀ a, le a a)
    (htrans : ∀ a b c, le a b → le b c → le a c)
    (hpick : ∀ a b, (pick a b = a ∨ pick a b = b) ∧ le (pick a b) a ∧ le (pick a b) b)
    (a : α) (rest : List α) :
    rest.foldl pick a ∈ a :: rest ∧ ∀ b ∈ a :: rest, le (rest.foldl pick a) b := by
  induction rest generalizing a with
  | nil => exact ⟨List.mem_cons_self, fun b hb => List.mem_singleton.1 hb ▸ hrefl a⟩
  | cons b rest ih =>
    obtain ⟨hmem, hle⟩ := ih (pick a b)
    obtain ⟨heq, ha, hb⟩ := hpick a b
    have hfirst := hle _ List.mem_cons_self
    rw [List.foldl_cons]
    refine ⟨?_, fun c hc => ?_⟩
    · rcases List.mem_cons.1 hmem with hkept | hrest
      · rw [hkept]
        rcases heq with heq | heq <;> rw [heq] <;> simp
      · exact List.mem_cons_of_mem _ (List.mem_cons_of_mem _ hrest)
    · rcases List.mem_cons.1 hc with rfl | hc
      · exact htrans _ _ _ hfirst ha
      · rcases List.mem_cons.1 hc with rfl | hc
        · exact htrans _ _ _ hfirst hb
        · exact hle c (List.mem_cons_of_mem _ hc)

/-- No element has more by a measure than the greatest one in an order that goes by the measure
first. -/
theorem le_of_greatestBy? {α : Type} {measure : α → Nat} {tie : α → α → Ordering} {as : List α}
    {m : α} (h : greatestBy? (fun a b => (compare (measure a) (measure b)).then (tie a b)) as =
      some m) : ∀ a ∈ as, measure a ≤ measure m := by
  have hpick : ∀ best b, ∀ better,
      (if (compare (measure b) (measure best)).then (tie b best) == .lt then best else b) = better →
        (better = best ∨ better = b) ∧ measure best ≤ measure better ∧
          measure b ≤ measure better := by
    rintro best b better rfl
    rcases lt_trichotomy (measure b) (measure best) with hlt | heq | hgt
    · rw [compare_lt_iff_lt.2 hlt]
      exact ⟨.inl rfl, le_rfl, hlt.le⟩
    · split
      · exact ⟨.inl rfl, le_rfl, heq.le⟩
      · exact ⟨.inr rfl, heq.ge, le_rfl⟩
    · rw [compare_gt_iff_gt.2 hgt]
      exact ⟨.inr rfl, hgt.le, le_rfl⟩
  cases as with
  | nil => simp [greatestBy?] at h
  | cons b rest =>
    rw [← Option.some.inj h]
    exact (rel_foldl_of_pick (fun m a => measure a ≤ measure m) _ (fun _ => le_rfl)
      (fun _ _ _ hab hbc => hbc.trans hab) (fun best b => hpick best b _ rfl) b rest).2

namespace Tally

variable {t : Tally} {j k : ValueType}

/-- All votes. -/
def total (t : Tally) : Nat := t.texts + t.numbers + t.bools + t.dates

theorem total_add (hk : k ≠ .mixed) : (t.add k).total = t.total + 1 := by
  cases k <;> simp only [add, total] <;> first | omega | exact absurd rfl hk

theorem votes_add (hk : k ≠ .mixed) :
    (t.add k).votes j = t.votes j + if k = j then 1 else 0 := by
  cases k <;> cases j <;> first | rfl | exact absurd rfl hk

/-- No two types have more than half of the votes. -/
theorem eq_of_majority (hj : t.total < 2 * t.votes j) (hk : t.total < 2 * t.votes k) : j = k := by
  cases j <;> cases k <;> simp only [votes, total] at hj hk <;> first | rfl | omega

/-- The type with more than half of the votes is named, and mixed types when there is none. -/
theorem majority_eq_iff (t : Tally) (k : ValueType) :
    t.majority t.total = k ↔
      t.total < 2 * t.votes k ∨ k = .mixed ∧ ∀ j, ¬ t.total < 2 * t.votes j := by
  unfold majority
  cases hfind : ([.number, .date, .bool, .text] : List ValueType).find?
      fun k => t.total < 2 * t.votes k with
  | some j =>
    have hj : t.total < 2 * t.votes j := by simpa using List.find?_some hfind
    rw [Option.getD_some]
    constructor
    · rintro rfl
      exact .inl hj
    · rintro (hk | ⟨-, hnone⟩)
      · exact eq_of_majority hj hk
      · exact absurd hj (hnone j)
  | none =>
    have hnone : ∀ j, ¬ t.total < 2 * t.votes j := by
      intro j
      cases j with
      | mixed => simp [votes]
      | _ => simpa using List.find?_eq_none.1 hfind _ (by decide)
    rw [Option.getD_none]
    constructor
    · rintro rfl
      exact .inr ⟨rfl, hnone⟩
    · rintro (hk | ⟨rfl, -⟩)
      · exact absurd hk (hnone k)
      · rfl

/-- The type with more than half of the votes is found by looking for the most votes, in whatever
order the types are gone through and whatever decides between types with equally many. -/
theorem elect_eq_majority (t : Tally) (tie : ValueType → ValueType → Ordering)
    {kinds : List ValueType} (hkinds : ∀ k, 0 < t.votes k → k ∈ kinds) :
    ValueType.elect t.votes t.total tie kinds = t.majority t.total := by
  -- a type with more than half of the votes is among those that are gone through
  have hmem : ∀ k, t.total < 2 * t.votes k → k ∈ kinds := fun k hk => hkinds k (by omega)
  refine ((majority_eq_iff t _).2 ?_).symm
  unfold ValueType.elect
  cases hbest : greatestBy? (fun j k => (compare (t.votes j) (t.votes k)).then (tie j k)) kinds with
  | none =>
    refine .inr ⟨rfl, fun j hj => ?_⟩
    cases kinds with
    | nil => exact absurd (hmem j hj) List.not_mem_nil
    | cons k rest => simp [greatestBy?] at hbest
  | some m =>
    by_cases hm : t.total < 2 * t.votes m
    · rw [Option.filter_some, if_pos (by simpa using hm)]
      exact .inl hm
    · rw [Option.filter_some, if_neg (by simpa using hm)]
      refine .inr ⟨rfl, fun j hj => ?_⟩
      have hle := le_of_greatestBy? hbest j (hmem j hj)
      omega

end Tally

/-! ## Surveys -/

namespace Survey

variable {limits : CatalogLimits} {values : List Atom} {s : Survey} {v : Atom} {kind : ValueType}

/-- What a survey of values tells. -/
structure Summarizes (limits : CatalogLimits) (values : List Atom) (s : Survey) : Prop where
  factCount : s.factCount = values.length
  nonNull : s.nonNull = (presentValues values).length
  total : s.tally.total = s.nonNull
  votes : ∀ k, s.tally.votes k = ValueType.votesFor values k
  seen : s.seen = ((firstValues values).map Atom.canonical).take limits.maxDistinct
  capped : s.capped = true ↔ limits.maxDistinct < (firstValues values).length
  examples : s.examples = (firstValues values).take (min limits.maxDistinct limits.maxExamples)

/-- Nothing is told of no values. -/
theorem summarizes_empty (limits : CatalogLimits) : Summarizes limits [] empty where
  factCount := rfl
  nonNull := rfl
  total := rfl
  votes k := by cases k <;> rfl
  seen := List.take_nil.symm
  capped := by simp [empty, firstValues, presentValues]
  examples := List.take_nil.symm

/-- Null is only counted. -/
theorem observe_of_isNull (hv : v.isNull = true) :
    s.observe limits v = { s with factCount := s.factCount + 1 } := by
  rw [observe, ValueType.ofAtom?_eq_none_iff.2 hv]

/-- Any other value votes. Its text is remembered while there is room, unless it was seen, and the
value is an example while there is room for one; a text that was not seen and for which there is no
room caps the count. -/
theorem observe_of_ofAtom? (hkind : ValueType.ofAtom? v = some kind) :
    s.observe limits v =
      { factCount := s.factCount + 1
        nonNull := s.nonNull + 1
        tally := s.tally.add kind
        seen :=
          if s.seen.length < limits.maxDistinct ∧ v.canonical ∉ s.seen then s.seen ++ [v.canonical]
          else s.seen
        capped := s.capped || decide (limits.maxDistinct ≤ s.seen.length ∧ v.canonical ∉ s.seen)
        examples :=
          if (s.seen.length < limits.maxDistinct ∧ v.canonical ∉ s.seen) ∧
            s.examples.length < limits.maxExamples then s.examples ++ [v]
          else s.examples } := by
  simp only [observe, hkind, List.contains_eq_mem, decide_eq_true_eq]
  by_cases hroom : s.seen.length < limits.maxDistinct
  · by_cases hknown : v.canonical ∈ s.seen <;> simp [hroom, hknown]
  · by_cases hknown : v.canonical ∈ s.seen <;> simp [hroom, hknown, not_lt.1 hroom]

namespace Summarizes

variable (h : Summarizes limits values s)
include h

/-- There is room as long as there are fewer first values than are remembered. -/
theorem length_seen_lt_iff :
    s.seen.length < limits.maxDistinct ↔ (firstValues values).length < limits.maxDistinct := by
  rw [h.seen, List.length_take, List.length_map]
  omega

/-- Up to the limit everything is remembered. -/
theorem seen_eq (hroom : (firstValues values).length ≤ limits.maxDistinct) :
    s.seen = (firstValues values).map Atom.canonical := by
  rw [h.seen, List.take_of_length_le]
  rwa [List.length_map]

/-- A text is remembered as one more when it is the first of its kind and there is room. -/
theorem remembers_iff (text : String) : (s.seen.length < limits.maxDistinct ∧ text ∉ s.seen) ↔
    ((firstValues values).length < limits.maxDistinct ∧
      text ∉ (firstValues values).map Atom.canonical) := by
  rw [h.length_seen_lt_iff]
  exact and_congr_right fun hroom => by rw [h.seen_eq hroom.le]

/-- Null changes nothing but the count. -/
theorem observe_of_isNull (hv : v.isNull = true) :
    Summarizes limits (values ++ [v]) (s.observe limits v) := by
  rw [Survey.observe_of_isNull hv]
  refine ⟨?_, ?_, h.total, fun k => ?_, ?_, ?_, ?_⟩
  · rw [List.length_append, ← h.factCount]
    rfl
  · rw [presentValues_concat_of_isNull hv]
    exact h.nonNull
  · rw [ValueType.votesFor_concat, ValueType.ofAtom?_eq_none_iff.2 hv]
    exact h.votes k
  · rw [firstValues_concat_of_isNull hv]
    exact h.seen
  · rw [firstValues_concat_of_isNull hv]
    exact h.capped
  · rw [firstValues_concat_of_isNull hv]
    exact h.examples

section Present

variable (hkind : ValueType.ofAtom? v = some kind)
include hkind

/-- What is remembered is the beginning of the first texts. -/
theorem seen_observe : (s.observe limits v).seen =
    ((firstValues (values ++ [v])).map Atom.canonical).take limits.maxDistinct := by
  rw [Survey.observe_of_ofAtom? hkind]
  dsimp only
  rw [if_congr (h.remembers_iff _) rfl rfl,
    firstValues_concat (ValueType.isNull_of_ofAtom? hkind)]
  -- a repeated text changes nothing, and the first of its kind is one more while there is room
  by_cases hknown : v.canonical ∈ (firstValues values).map Atom.canonical
  · rw [if_neg fun hfresh => hfresh.2 hknown, if_pos hknown]
    exact h.seen
  · rw [if_neg hknown, List.map_append, List.map_singleton, take_concat_eq_ite, List.length_map]
    by_cases hroom : (firstValues values).length < limits.maxDistinct
    · rw [if_pos ⟨hroom, hknown⟩, if_pos hroom, h.seen_eq hroom.le]
    · rw [if_neg fun hfresh => hroom hfresh.1, if_neg hroom]
      exact h.seen

/-- The examples are the beginning of the first values. -/
theorem examples_observe : (s.observe limits v).examples =
    (firstValues (values ++ [v])).take (min limits.maxDistinct limits.maxExamples) := by
  have hlength : s.examples.length =
      min (min limits.maxDistinct limits.maxExamples) (firstValues values).length := by
    rw [h.examples, List.length_take]
  rw [Survey.observe_of_ofAtom? hkind]
  dsimp only
  rw [if_congr (and_congr_left' (h.remembers_iff _)) rfl rfl,
    firstValues_concat (ValueType.isNull_of_ofAtom? hkind)]
  by_cases hknown : v.canonical ∈ (firstValues values).map Atom.canonical
  · rw [if_neg fun hfresh => hfresh.1.2 hknown, if_pos hknown]
    exact h.examples
  · rw [if_neg hknown, take_concat_eq_ite]
    -- as long as there is room for an example all first values are examples
    by_cases hroom : (firstValues values).length < min limits.maxDistinct limits.maxExamples
    · rw [if_pos hroom, if_pos ⟨⟨by omega, hknown⟩, by omega⟩, h.examples,
        List.take_of_length_le hroom.le]
    · rw [if_neg hroom, if_neg fun hfresh => by omega]
      exact h.examples

/-- When nothing more is remembered, a text that was not seen is one too many: either it is the
first of its kind, or it came when there was no room any more. -/
theorem capped_observe : (s.observe limits v).capped = true ↔
    limits.maxDistinct < (firstValues (values ++ [v])).length := by
  rw [Survey.observe_of_ofAtom? hkind, Bool.or_eq_true, decide_eq_true_eq, h.capped,
    firstValues_concat (ValueType.isNull_of_ofAtom? hkind), ← not_lt, h.length_seen_lt_iff, not_lt]
  by_cases hknown : v.canonical ∈ (firstValues values).map Atom.canonical
  · rw [if_pos hknown, or_iff_left_iff_imp]
    -- a text that is known but was not seen came after the limit was passed
    rintro ⟨hfull, hunseen⟩
    refine lt_of_le_of_ne hfull fun heq => hunseen ?_
    rw [h.seen_eq heq.ge]
    exact hknown
  · have hunseen : v.canonical ∉ s.seen := by
      rw [h.seen]
      exact fun hmem => hknown (List.mem_of_mem_take hmem)
    rw [if_neg hknown, List.length_append, List.length_singleton, and_iff_left hunseen]
    omega

/-- One value more is summarized after it was taken in. -/
theorem observe_of_ofAtom? : Summarizes limits (values ++ [v]) (s.observe limits v) := by
  have hmixed : kind ≠ .mixed := by
    rintro rfl
    exact ValueType.ofAtom?_ne_mixed v hkind
  refine ⟨?_, ?_, ?_, fun k => ?_, h.seen_observe hkind, h.capped_observe hkind,
    h.examples_observe hkind⟩ <;> rw [Survey.observe_of_ofAtom? hkind]
  · rw [h.factCount, List.length_append, List.length_singleton]
  · rw [h.nonNull, presentValues_concat (ValueType.isNull_of_ofAtom? hkind), List.length_append,
      List.length_singleton]
  · rw [Tally.total_add hmixed, h.total]
  · rw [Tally.votes_add hmixed, h.votes k, ValueType.votesFor_concat, hkind]
    exact congrArg _ (if_congr Option.some_inj.symm rfl rfl)

end Present

/-- A summary stays one when a value is taken in. -/
theorem observe (v : Atom) : Summarizes limits (values ++ [v]) (s.observe limits v) := by
  cases hkind : ValueType.ofAtom? v with
  | none => exact h.observe_of_isNull (ValueType.ofAtom?_eq_none_iff.1 hkind)
  | some kind => exact h.observe_of_ofAtom? hkind

end Summarizes

/-- The survey of a list of values summarizes it. -/
theorem summarizes_ofValues (limits : CatalogLimits) (values : List Atom) :
    Summarizes limits values (ofValues limits values) := by
  -- from the right, as what a value adds depends on those before it
  induction values using List.reverseRecOn with
  | nil => exact summarizes_empty limits
  | append_singleton values v ih =>
    rw [ofValues, List.foldl_append]
    exact ih.observe v

end Survey

/-! ## Entries -/

namespace CatalogEntry

/-- What the catalog says about an attribute with the given values. All of them are counted; of the
canonical texts of those other than null as many as are remembered, and it is told whether there are
more. The examples are the first values of their texts. The type is the one that more than half of
the values other than null vote for, mixed when there is none, and it is also found by taking a type
with the most votes, in whatever order the types that have votes are gone through. -/
theorem ofValues_spec (limits : CatalogLimits) (attr : String) (values : List Atom) :
    (ofValues limits attr values).factCount = values.length ∧
    (ofValues limits attr values).distinctCount =
      min (presentTexts values).card limits.maxDistinct ∧
    ((ofValues limits attr values).distinctCapped = true ↔
      limits.maxDistinct < (presentTexts values).card) ∧
    (ofValues limits attr values).examples = (firstValues values).take
      (min (presentTexts values).card (min limits.maxDistinct limits.maxExamples)) ∧
    (∀ k, (ofValues limits attr values).valueType = k ↔
      (presentValues values).length < 2 * ValueType.votesFor values k ∨
      k = .mixed ∧ ∀ j, ¬ (presentValues values).length < 2 * ValueType.votesFor values j) ∧
    (∀ tie kinds, (∀ k, 0 < ValueType.votesFor values k → k ∈ kinds) →
      ValueType.elect (ValueType.votesFor values) (presentValues values).length tie kinds =
        (ofValues limits attr values).valueType) := by
  have h := Survey.summarizes_ofValues limits values
  have htotal : (Survey.ofValues limits values).tally.total = (presentValues values).length :=
    h.total.trans h.nonNull
  have hvotes : (Survey.ofValues limits values).tally.votes = ValueType.votesFor values :=
    funext h.votes
  have htype : (ofValues limits attr values).valueType =
      (Survey.ofValues limits values).tally.majority (Survey.ofValues limits values).tally.total := by
    rw [h.total]
    rfl
  refine ⟨h.factCount, ?_, ?_, ?_, fun k => ?_, fun tie kinds hkinds => ?_⟩
  · calc (Survey.ofValues limits values).seen.length
        = min limits.maxDistinct (firstValues values).length := by
          rw [h.seen, List.length_take, List.length_map]
      _ = min (presentTexts values).card limits.maxDistinct := by
          rw [length_firstValues, min_comm]
  · rw [← length_firstValues]
    exact h.capped
  · rw [← length_firstValues, min_comm (firstValues values).length, ← List.take_eq_take_min]
    exact h.examples
  · rw [htype, Tally.majority_eq_iff, htotal, hvotes]
  · rw [htype, ← Tally.elect_eq_majority _ tie (by rwa [hvotes]), htotal, hvotes]

/-- Four texts of which two are remembered, in five values of which three are no dates. -/
theorem ofValues_spec_mixture :
    (∀ k, 0 < ValueType.votesFor
        [.text "a", .null, .number 1, .text "b", .text "a", .text "2024-03-01"] k →
      k ∈ [.date, .number, .text]) ∧
    (ofValues ⟨2, 2, 10⟩ "x"
      [.text "a", .null, .number 1, .text "b", .text "a", .text "2024-03-01"]).distinctCapped ∧
    (ofValues ⟨2, 2, 10⟩ "x"
      [.text "a", .null, .number 1, .text "b", .text "a", .text "2024-03-01"]).examples =
        [.text "a", .number 1] ∧
    ValueType.elect (ValueType.votesFor
        [.text "a", .null, .number 1, .text "b", .text "a", .text "2024-03-01"]) 5
      (fun _ _ => .eq) [.date, .number, .text] = .text := by
  have hkinds : ∀ k, 0 < ValueType.votesFor
      [.text "a", .null, .number 1, .text "b", .text "a", .text "2024-03-01"] k →
      k ∈ [.date, .number, .text] := by
    intro k
    cases k <;> decide
  obtain ⟨-, -, hcapped, hexamples, htype, helect⟩ := ofValues_spec ⟨2, 2, 10⟩ "x"
    [.text "a", .null, .number 1, .text "b", .text "a", .text "2024-03-01"]
  refine ⟨hkinds, hcapped.2 (by decide), hexamples.trans (by decide), ?_⟩
  exact (helect (fun _ _ => .eq) _ hkinds).trans ((htype _).2 (.inl (by decide)))

end CatalogEntry

end Factbase
