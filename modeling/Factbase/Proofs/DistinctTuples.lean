import Factbase.Proofs.Legibility

/-! # Relations keep different tuples

A relation tells tuples apart by their keys, in which the canonical texts of the columns are joined
by a separator: it holds the first of the tuples with each key (`Relation.toList_ofTuples`). Where
no text holds the separator, tuples with one key agree column by column (`Tuple.tupleKey_eq_iff`).
Then a relation keeps all different tuples, and a working set that is seeded has a row for every
fact and every link (`Relation.firsts_ofTuples`). A text that holds the separator reads like two
columns, and one of two rows gets lost (`Relation.not_firsts_ofTuples`). -/

namespace Factbase

namespace Tuple

/-- Two tuples have one length and, column by column, the same canonical text. -/
def Alike (t u : Tuple) : Prop := t.map Atom.canonical = u.map Atom.canonical

instance (t u : Tuple) : Decidable (t.Alike u) :=
  inferInstanceAs (Decidable (t.map Atom.canonical = u.map Atom.canonical))

variable {t u : Tuple}

/-- Alike tuples have one key. -/
theorem Alike.tupleKey_eq (h : t.Alike u) : tupleKey t = tupleKey u :=
  congrArg unitSeparator.intercalate h

/-- Tuples without the separator in their texts have one key only if they are alike. -/
theorem tupleKey_eq_iff (ht : t.Lacks (Char.ofNat 0x1F)) (hu : u.Lacks (Char.ofNat 0x1F)) :
    tupleKey t = tupleKey u ↔ t.Alike u :=
  ⟨canonical_of_tupleKey_eq ht hu, Alike.tupleKey_eq⟩

end Tuple

/-- Which elements repeat earlier ones depends on comparisons between elements only. -/
theorem eraseDupsBy_congr {α : Type} {same same' : α → α → Bool} {as : List α}
    (h : ∀ a ∈ as, ∀ b ∈ as, same a b = same' a b) :
    as.eraseDupsBy same = as.eraseDupsBy same' := by
  -- dropping the repetitions of the first element leaves a shorter list
  induction hlength : as.length using Nat.strongRecOn generalizing as with
  | _ n ih =>
    cases as with
    | nil => rfl
    | cons a rest =>
      have hfilter : rest.filter (fun b => same b a = false) =
          rest.filter fun b => same' b a = false :=
        List.filter_congr fun b hb => by rw [h b (List.mem_cons_of_mem a hb) a List.mem_cons_self]
      have hshort : (rest.filter fun b => same' b a = false).length < n :=
        hlength ▸ Nat.lt_succ_of_le (List.length_filter_le _ rest)
      rw [List.eraseDupsBy_cons, List.eraseDupsBy_cons, hfilter]
      refine congrArg (a :: ·) (ih _ hshort (fun b hb c hc => ?_) rfl)
      exact h b (List.mem_cons_of_mem a (List.mem_of_mem_filter hb)) c
        (List.mem_cons_of_mem a (List.mem_of_mem_filter hc))

namespace Relation

variable {tuples : List Tuple} {t : Tuple}

/-- A relation holds the first of the tuples with each key, in the order of insertion. -/
theorem toList_ofTuples (tuples : List Tuple) :
    (ofTuples tuples).tuples.toList =
      tuples.eraseDupsBy fun t u => tupleKey t = tupleKey u := by
  rw [ofTuples, toList_insertEach, List.filter_eq_self.2 fun t _ => by simp [empty, contains]]
  rfl

/-- A tuple is in a relation when one with its key was inserted. -/
theorem contains_ofTuples :
    (ofTuples tuples).contains t = true ↔ ∃ u ∈ tuples, tupleKey u = tupleKey t := by
  rw [contains_iff]
  constructor
  · rintro ⟨u, hu, hkey⟩
    exact ⟨u, (mem_of_mem_insertEach hu).resolve_left (by simp [empty]), hkey⟩
  · rintro ⟨u, hu, hkey⟩
    obtain ⟨v, hv, heq⟩ := exists_mem_insertEach empty hu
    exact ⟨v, hv, heq.trans hkey⟩

/-- A tuple is new exactly when none before it is alike. -/
theorem insert_ofTuples_iff {front : List Tuple} (hfront : ∀ u ∈ front, u.Lacks (Char.ofNat 0x1F))
    (ht : t.Lacks (Char.ofNat 0x1F)) :
    ((ofTuples front).insert t).1 = true ↔ ∀ u ∈ front, ¬ u.Alike t := by
  rw [insert_fst, Bool.not_eq_true', Bool.eq_false_iff, ne_eq, contains_ofTuples]
  simp only [not_exists, not_and]
  exact forall₂_congr fun u hu => not_congr (Tuple.tupleKey_eq_iff (hfront u hu) ht)

/-- A tuple is in a relation exactly when an alike one is held. -/
theorem contains_iff_alike {r : Relation}
    (hr : ∀ u ∈ r.tuples.toList, u.Lacks (Char.ofNat 0x1F)) (ht : t.Lacks (Char.ofNat 0x1F)) :
    r.contains t = true ↔ ∃ u ∈ r.tuples.toList, u.Alike t := by
  rw [contains_iff]
  exact exists_congr fun u => and_congr_right fun hu => Tuple.tupleKey_eq_iff (hr u hu) ht

/-- A seeded working set has a row for every fact. -/
theorem exists_alike_seed_fact {s : Store} (hs : s.Lacks (Char.ofNat 0x1F)) (w : WorkingSet)
    {f : Fact} (hf : f ∈ s.facts.toList) :
    ∃ t ∈ (w.seed s).tuples attrRelation, t.Alike f.toTuple := by
  obtain ⟨t, ht, hkey⟩ := WorkingSet.exists_mem_tuples_seed_fact (w := w) hf
  have hlacks := WorkingSet.lacks_seed hs _ t ht
  exact ⟨t, ht, (Tuple.tupleKey_eq_iff hlacks (hs.facts f hf)).1 hkey⟩

/-- A seeded working set has a row for every link. -/
theorem exists_alike_seed_link {s : Store} (hs : s.Lacks (Char.ofNat 0x1F)) (w : WorkingSet)
    {l : Link} (hl : l ∈ s.links.toList) :
    ∃ t ∈ (w.seed s).tuples linkRelation, t.Alike l.toTuple := by
  obtain ⟨t, ht, hkey⟩ := WorkingSet.exists_mem_tuples_seed_link (w := w) hl
  have hlacks := WorkingSet.lacks_seed hs _ t ht
  exact ⟨t, ht, (Tuple.tupleKey_eq_iff hlacks (hs.links l hl)).1 hkey⟩

/-- Whatever tuples are inserted in whatever order, as long as no text holds the separator: a tuple
is new exactly when none before it is alike; the relation holds the first of the tuples that are
alike, in the order of insertion; and a tuple is there exactly when an alike one is held. So seeding
a working set keeps a row for every fact and every link. -/
theorem firsts_ofTuples (htuples : ∀ t ∈ tuples, t.Lacks (Char.ofNat 0x1F)) {s : Store}
    (hs : s.Lacks (Char.ofNat 0x1F)) (w : WorkingSet) :
    (∀ front t back, tuples = front ++ t :: back →
      (((ofTuples front).insert t).1 = true ↔ ∀ u ∈ front, ¬ u.Alike t)) ∧
    (ofTuples tuples).tuples.toList = tuples.eraseDupsBy (fun t u => t.Alike u) ∧
    (∀ t : Tuple, t.Lacks (Char.ofNat 0x1F) →
      ((ofTuples tuples).contains t = true ↔ ∃ u ∈ (ofTuples tuples).tuples.toList, u.Alike t)) ∧
    (∀ f ∈ s.facts.toList, ∃ t ∈ (w.seed s).tuples attrRelation, t.Alike f.toTuple) ∧
    ∀ l ∈ s.links.toList, ∃ t ∈ (w.seed s).tuples linkRelation, t.Alike l.toTuple := by
  refine ⟨?_, ?_, ?_, fun f hf => exists_alike_seed_fact hs w hf,
    fun l hl => exists_alike_seed_link hs w hl⟩
  · rintro front t back rfl
    exact insert_ofTuples_iff (fun u hu => htuples u (List.mem_append_left _ hu))
      (htuples t (List.mem_append_right front List.mem_cons_self))
  · rw [toList_ofTuples]
    exact eraseDupsBy_congr fun t ht u hu =>
      decide_eq_decide.2 (Tuple.tupleKey_eq_iff (htuples t ht) (htuples u hu))
  · refine fun t ht => contains_iff_alike (fun u hu => htuples u ?_) ht
    exact (mem_of_mem_insertEach hu).resolve_left (by simp [empty])

/-- A store with a link and with a fact that was added twice. -/
def repeatedStore : Store :=
  ((Store.empty .default).addFacts [⟨"a:1", "x", .null⟩, ⟨"a:1", "x", .null⟩]).addLink
    ⟨"a:1", "L", "a:2"⟩

/-- A tuple that is inserted twice is held once, and a fact that was added twice has a row. -/
theorem firsts_ofTuples_repeated :
    (∀ t ∈ [[.text "a", .text "b"], [.text "a", .null], [.text "a", .text "b"]],
      Tuple.Lacks (Char.ofNat 0x1F) t) ∧
    repeatedStore.Lacks (Char.ofNat 0x1F) ∧
    (ofTuples [[.text "a", .text "b"], [.text "a", .null], [.text "a", .text "b"]]).tuples.toList =
      [[.text "a", .text "b"], [.text "a", .null]] ∧
    ∃ t ∈ (WorkingSet.ofStore repeatedStore).tuples attrRelation,
      t.Alike [.text "a:1", .text "x", .null] := by
  have htuples : ∀ t ∈ [[.text "a", .text "b"], [.text "a", .null], [.text "a", .text "b"]],
      Tuple.Lacks (Char.ofNat 0x1F) t := by
    simp [Tuple.Lacks, Atom.Lacks]
  have hs : repeatedStore.Lacks (Char.ofNat 0x1F) := by
    constructor <;>
      simp [repeatedStore, Store.addFacts, Store.addFact, Store.addLink, Store.empty, Tuple.Lacks,
        Atom.Lacks, Fact.toTuple, Link.toTuple]
  obtain ⟨-, hlist, -, hfacts, -⟩ := firsts_ofTuples htuples hs .empty
  exact ⟨htuples, hs, hlist.trans (by decide), hfacts ⟨"a:1", "x", .null⟩ (by decide)⟩

/-- A text with the separator in it reads like two columns. A tuple of one column is then taken for
one of two, and one of two facts has no row. -/
theorem not_firsts_ofTuples :
    (¬ ∀ front t, ((ofTuples front).insert t).1 = true ↔ ∀ u ∈ front, ¬ u.Alike t) ∧
    ¬ ∀ (s : Store) (w : WorkingSet), ∀ f ∈ s.facts.toList,
      ∃ t ∈ (w.seed s).tuples attrRelation, t.Alike f.toTuple := by
  constructor
  · intro h
    have hnew := (h [[.text "a", .text "b"]] [.text "a\u001fs:b"]).2 (by decide)
    rw [insert_fst, contains_ofTuples.2 ⟨_, List.mem_singleton.2 rfl, by decide⟩] at hnew
    exact absurd hnew (by decide)
  · intro h
    obtain ⟨t, ht, halike⟩ := h
      ((Store.empty .default).addFacts
        [⟨"e", "a\u001fs:b", .text "c"⟩, ⟨"e\u001fs:a", "b", .text "c"⟩])
      .empty ⟨"e\u001fs:a", "b", .text "c"⟩ (by decide)
    rw [WorkingSet.tuples_seed_attrRelation, toList_ofTuples] at ht
    -- only the first row is held
    obtain rfl : t = [.text "e", .text "a\u001fs:b", .text "c"] := List.mem_singleton.1 ht
    exact absurd halike (by decide)

end Relation

end Factbase
