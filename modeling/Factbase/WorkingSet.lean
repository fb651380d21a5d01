import Factbase.Relation
import Factbase.Store

/-! # Working sets

A `WorkingSet` holds the relations of one evaluation by name: the base relations `attr` and `link`,
which are loaded from a store, and those that rules derive. -/

namespace Factbase

/-- Name of the relation of facts. -/
def attrRelation : String := "attr"

/-- Name of the relation of links. -/
def linkRelation : String := "link"

/-- Relations by name. -/
@[ext]
structure WorkingSet where
  relations : List (String × Relation)
  isOrdered : IsOrdered relations

namespace WorkingSet

/-- No relations. -/
def empty : WorkingSet := ⟨[], List.Pairwise.nil⟩

instance : Inhabited WorkingSet := ⟨empty⟩

/-- The relation of a name. -/
def relation? (w : WorkingSet) (name : String) : Option Relation := w.relations.lookup name

/-- The relation of a name, without tuples when there is none. -/
def relation (w : WorkingSet) (name : String) : Relation := (w.relation? name).getD .empty

/-- The tuples of a relation, in the order in which they were inserted. -/
def tuples (w : WorkingSet) (name : String) : List Tuple := (w.relation name).tuples.toList

/-- Gives a name its relation. -/
def put (w : WorkingSet) (name : String) (r : Relation) : WorkingSet :=
  ⟨putEntry name r w.relations, w.isOrdered.putEntry name r⟩

@[simp] theorem relation?_empty (name : String) : empty.relation? name = none := rfl

/-- Giving a name its relation changes the relation of that name only. -/
theorem relation?_put (w : WorkingSet) (name : String) (r : Relation) (other : String) :
    (w.put name r).relation? other = if other = name then some r else w.relation? other :=
  lookup_putEntry name r other w.relations

/-- Drops all relations. -/
def clear (_ : WorkingSet) : WorkingSet := empty

/-- Drops all relations and loads the facts and links of a store. -/
def seed (w : WorkingSet) (s : Store) : WorkingSet :=
  (w.clear.put attrRelation (.ofTuples (s.facts.toList.map Fact.toTuple))).put linkRelation
    (.ofTuples (s.links.toList.map Link.toTuple))

/-- The working set of a store. -/
def ofStore (s : Store) : WorkingSet := empty.seed s

/-- Inserts tuples into the relation of a name, and counts the new ones. A relation comes into being
with its first tuple. -/
def insertEach (w : WorkingSet) (name : String) (tuples : List Tuple) : Nat × WorkingSet :=
  if tuples.isEmpty then (0, w)
  else
    let (added, r) := (w.relation name).insertEach tuples
    (added, w.put name r)

/-- Inserting tuples changes the relation of that name only. -/
theorem relation_insertEach (w : WorkingSet) (name : String) (tuples : List Tuple)
    (other : String) :
    (w.insertEach name tuples).2.relation other =
      if other = name then ((w.relation name).insertEach tuples).2 else w.relation other := by
  cases tuples with
  | nil =>
    split
    · next h => rw [h]; rfl
    · rfl
  | cons tuple rest =>
    rw [insertEach, if_neg (by simp), relation, relation?_put]
    split <;> rfl

/-- The count of new tuples is that of the relation. -/
theorem insertEach_fst (w : WorkingSet) (name : String) (tuples : List Tuple) :
    (w.insertEach name tuples).1 = ((w.relation name).insertEach tuples).1 := by
  cases tuples <;> rfl

/-- Where no tuple is new, nothing changes. -/
theorem insertEach_of_zero {w : WorkingSet} {name : String} {tuples : List Tuple}
    (h : (w.insertEach name tuples).1 = 0) : (w.insertEach name tuples).2 = w := by
  cases tuples with
  | nil => rfl
  | cons tuple rest =>
    rw [insertEach_fst] at h
    -- one with the key of the first tuple is there, so that there is a relation of the name
    obtain ⟨t, ht, -⟩ := (w.relation name).exists_mem_insertEach
      (List.mem_cons_self : tuple ∈ tuple :: rest)
    have hsame := Relation.insertEach_of_zero h
    rw [hsame] at ht
    cases hrelation : w.relation? name with
    | none => simp [relation, hrelation, Relation.empty] at ht
    | some r =>
      have hr : w.relation name = r := by simp [relation, hrelation]
      rw [insertEach, if_neg (by simp)]
      dsimp only
      rw [hsame, hr]
      exact WorkingSet.ext (putEntry_of_lookup w.isOrdered hrelation)

section Tuples

variable {w : WorkingSet} {name other : String} {added : List Tuple} {t : Tuple}

/-- Inserting tuples leaves other relations alone. -/
theorem tuples_insertEach_of_ne (h : other ≠ name) :
    (w.insertEach name added).2.tuples other = w.tuples other := by
  rw [tuples, relation_insertEach, if_neg h, tuples]

/-- Inserting tuples adds these only, and to one relation. -/
theorem mem_of_mem_tuples_insertEach (h : t ∈ (w.insertEach name added).2.tuples other) :
    t ∈ w.tuples other ∨ other = name ∧ t ∈ added := by
  rw [tuples, relation_insertEach] at h
  split at h
  · next heq =>
    rw [heq]
    exact (Relation.mem_of_mem_insertEach h).imp_right fun h => ⟨rfl, h⟩
  · exact .inl h

/-- Inserting tuples leaves those that are there in front. -/
theorem isPrefix_tuples_insertEach (w : WorkingSet) (name : String) (added : List Tuple)
    (other : String) : w.tuples other <+: (w.insertEach name added).2.tuples other := by
  rw [tuples, tuples, relation_insertEach]
  split
  · next heq =>
    rw [heq]
    exact Relation.isPrefix_insertEach _ added
  · exact List.prefix_refl _

/-- Inserting tuples keeps those that are there. -/
theorem mem_tuples_insertEach_of_mem (h : t ∈ w.tuples other) :
    t ∈ (w.insertEach name added).2.tuples other :=
  (w.isPrefix_tuples_insertEach name added other).subset h

/-- After inserting tuples one with the key of each is there. -/
theorem exists_mem_tuples_insertEach (w : WorkingSet) (name : String) (h : t ∈ added) :
    ∃ t' ∈ (w.insertEach name added).2.tuples name, tupleKey t' = tupleKey t := by
  rw [tuples, relation_insertEach, if_pos rfl]
  exact Relation.exists_mem_insertEach _ h

/-- What inserting tuples into a relation does depends on the tuples of that relation only. -/
theorem insertEach_congr {w' : WorkingSet} (h : w.tuples name = w'.tuples name)
    (added : List Tuple) : (w.insertEach name added).1 = (w'.insertEach name added).1 ∧
      (w.insertEach name added).2.tuples name = (w'.insertEach name added).2.tuples name := by
  rw [insertEach_fst, insertEach_fst, tuples, tuples, relation_insertEach, relation_insertEach,
    if_pos rfl, if_pos rfl]
  exact Relation.insertEach_congr h added

/-- Tuples with keys that are there change nothing. -/
theorem insertEach_of_forall_exists
    (h : ∀ t ∈ added, ∃ t' ∈ w.tuples name, tupleKey t' = tupleKey t) :
    w.insertEach name added = (0, w) := by
  have hzero : (w.insertEach name added).1 = 0 := by
    rw [insertEach_fst, Relation.insertEach_of_forall_contains fun t ht =>
      Relation.contains_iff.2 (h t ht)]
  exact Prod.ext hzero (insertEach_of_zero hzero)

/-- Seeding makes a relation of the rows of the facts. -/
theorem tuples_seed_attrRelation (w : WorkingSet) (s : Store) :
    (w.seed s).tuples attrRelation =
      (Relation.ofTuples (s.facts.toList.map Fact.toTuple)).tuples.toList := by
  rw [tuples, seed, relation, relation?_put, relation?_put, if_neg (by decide), if_pos rfl]
  rfl

/-- Seeding makes a relation of the rows of the links. -/
theorem tuples_seed_linkRelation (w : WorkingSet) (s : Store) :
    (w.seed s).tuples linkRelation =
      (Relation.ofTuples (s.links.toList.map Link.toTuple)).tuples.toList := by
  rw [tuples, seed, relation, relation?_put, if_pos rfl]
  rfl

/-- Seeding with facts of different keys loads them in order. -/
theorem tuples_seed_attr {s : Store}
    (h : ((s.facts.toList.map Fact.toTuple).map tupleKey).Nodup) :
    (w.seed s).tuples attrRelation = s.facts.toList.map Fact.toTuple := by
  rw [tuples_seed_attrRelation]
  exact Relation.tuples_ofTuples_of_nodup h

/-- A working set holds after seeding the rows of the store only. -/
theorem mem_of_mem_tuples_seed {s : Store} (h : t ∈ (w.seed s).tuples name) :
    (name = attrRelation ∧ ∃ f ∈ s.facts.toList, t = f.toTuple) ∨
      (name = linkRelation ∧ ∃ l ∈ s.links.toList, t = l.toTuple) := by
  have hofTuples : ∀ {rows : List Tuple},
      t ∈ (Relation.ofTuples rows).tuples.toList → t ∈ rows := by
    intro rows ht
    exact (Relation.mem_of_mem_insertEach ht).resolve_left (by simp [Relation.empty])
  rw [tuples, seed, relation, relation?_put, relation?_put, clear, relation?_empty] at h
  split at h
  · next hlink =>
    right
    obtain ⟨l, hl, rfl⟩ := List.mem_map.1 (hofTuples h)
    exact ⟨hlink, l, hl, rfl⟩
  · split at h
    · next hattr =>
      left
      obtain ⟨f, hf, rfl⟩ := List.mem_map.1 (hofTuples h)
      exact ⟨hattr, f, hf, rfl⟩
    · simp [Relation.empty] at h

/-- After seeding a row with the key of each fact is there. -/
theorem exists_mem_tuples_seed_fact {s : Store} {f : Fact} (h : f ∈ s.facts.toList) :
    ∃ t ∈ (w.seed s).tuples attrRelation, tupleKey t = tupleKey f.toTuple := by
  rw [tuples_seed_attrRelation]
  exact Relation.exists_mem_insertEach _ (List.mem_map_of_mem h)

/-- After seeding a row with the key of each link is there. -/
theorem exists_mem_tuples_seed_link {s : Store} {l : Link} (h : l ∈ s.links.toList) :
    ∃ t ∈ (w.seed s).tuples linkRelation, tupleKey t = tupleKey l.toTuple := by
  rw [tuples_seed_linkRelation]
  exact Relation.exists_mem_insertEach _ (List.mem_map_of_mem h)

end Tuples

/-- Inserts a tuple into the relation of a name, and tells whether it is new. -/
def insert (w : WorkingSet) (name : String) (tuple : Tuple) : Bool × WorkingSet :=
  let (isNew, r) := (w.relation name).insert tuple
  (isNew, w.put name r)

/-- Whether a name is that of a base relation. -/
def isBase (name : String) : Bool := name == attrRelation || name == linkRelation

/-- Number of tuples in all relations. -/
def tupleCount (w : WorkingSet) : Nat := w.relations.foldl (fun n e => n + e.2.size) 0

/-- Number of tuples in relations other than the base relations. -/
def derivedCount (w : WorkingSet) : Nat :=
  (w.relations.filter fun e => !isBase e.1).foldl (fun n e => n + e.2.size) 0

end WorkingSet

end Factbase
