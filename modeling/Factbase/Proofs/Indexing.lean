import Mathlib.Data.Finset.Card
import Factbase.Store

/-! # The indexes of a store

An index tracks a sequence of records by a key when it has each key at the positions of the records
with that key, and no key besides (`Index.Tracks`). The record that goes to the end of the sequence
takes the next position, so tracking is kept, and with it that all five indexes of a store track its
facts and links (`Store.IsIndexed`), over every sequence of calls that add to the store.

What a store tells is then what going through everything that was added tells
(`Store.scanned_performAll`): the look-ups, the attributes, the counts and the catalog. -/

namespace Factbase

namespace Index

variable {κ α : Type} [BEq κ] [Hashable κ]

/-- An index has each key at the positions of the records with that key, and no other keys. -/
structure Tracks (index : Index κ) (key : α → κ) (records : List α) : Prop where
  toList_lookup : ∀ k, (index.lookup k).toList = positionsOf (key · == k) records
  mem_keys : ∀ k, k ∈ index.keys ↔ ∃ record ∈ records, key record = k

variable {index : Index κ} {key : α → κ}

/-- Where there are no records there are no keys. -/
theorem tracks_empty (key : α → κ) : (empty : Index κ).Tracks key [] where
  toList_lookup k := by simp [positionsOf]
  mem_keys k := by simp [keys, empty]

/-- A look-up gives the records that going through all of them gives. -/
theorem Tracks.select_eq_filter {records : Array α} (h : index.Tracks key records.toList) (k : κ) :
    index.select records k = records.toList.filter (key · == k) := by
  have hget : (fun i : Nat => records[i]?) = fun i => records.toList[i]? := by
    funext i
    exact Array.getElem?_toList.symm
  rw [select, h.toList_lookup, hget, filterMap_positionsOf]

variable [LawfulBEq κ] [LawfulHashable κ] {records : List α}

/-- Adding a position adds its key. -/
theorem mem_keys_add {added k : κ} {position : Nat} :
    k ∈ (index.add added position).keys ↔ added = k ∨ k ∈ index.keys := by
  rw [keys, keys, Std.HashMap.mem_keys, Std.HashMap.mem_keys, add, Std.HashMap.mem_insert,
    beq_iff_eq]

/-- A record at the end takes the position after the others. -/
theorem Tracks.add (h : index.Tracks key records) (record : α) :
    (index.add (key record) records.length).Tracks key (records ++ [record]) where
  toList_lookup k := by
    rw [lookup_add, positionsOf_append, ← h.toList_lookup]
    by_cases hkey : key record = k <;> simp [hkey]
  mem_keys k := by
    rw [mem_keys_add, h.mem_keys, or_comm]
    simp [or_and_right, exists_or]

/-- No key is repeated. -/
theorem nodup_keys (index : Index κ) : index.keys.Nodup := index.positions.nodup_keys

/-- There are as many keys as the records have different ones. -/
theorem Tracks.length_keys [DecidableEq κ] (h : index.Tracks key records) :
    index.keys.length = (records.map key).toFinset.card := by
  rw [← List.toFinset_card_of_nodup index.nodup_keys]
  congr 1
  ext k
  rw [List.mem_toFinset, List.mem_toFinset, h.mem_keys, List.mem_map]

end Index

section Names

variable {name : String} {names : List String}

/-- Names in order are the same names. -/
@[simp] theorem mem_sortNames : name ∈ sortNames names ↔ name ∈ names := List.mem_mergeSort

/-- Different names in order strictly increase. -/
theorem pairwise_sortNames (h : names.Nodup) : (sortNames names).Pairwise (· < ·) := by
  have hiff : ∀ a b : String, (!decide (b < a)) = true ↔ a ≤ b := by
    intro a b
    rw [Bool.not_eq_true', decide_eq_false_iff_not, String.not_lt]
  have hle : (sortNames names).Pairwise fun a b => (!decide (b < a)) = true := by
    refine List.pairwise_mergeSort (fun a b c hab hbc => ?_) (fun a b => ?_) names
    · rw [hiff] at hab hbc ⊢
      exact String.le_trans hab hbc
    · rw [Bool.or_eq_true, hiff, hiff]
      exact String.le_total a b
  have hne : (sortNames names).Nodup := (List.mergeSort_perm names _).nodup_iff.2 h
  refine (List.pairwise_and_iff.2 ⟨hle, hne⟩).imp fun {a b} hab => ?_
  exact Std.lt_of_le_of_ne ((hiff a b).1 hab.1) hab.2

end Names

/-- Dropping repeated elements leaves as many as there are different ones. -/
theorem length_distinctBy_id {α : Type} [BEq α] [Hashable α] [LawfulBEq α] [LawfulHashable α]
    [DecidableEq α] (as : List α) : (distinctBy id as).length = as.toFinset.card := by
  have hnodup : (distinctBy id as).Nodup := pairwise_distinctBy
  rw [← List.toFinset_card_of_nodup hnodup]
  congr 1
  ext a
  rw [List.mem_toFinset, List.mem_toFinset]
  refine ⟨mem_of_mem_distinctBy, fun ha => ?_⟩
  obtain ⟨b, hb, rfl⟩ := exists_mem_distinctBy id ha
  exact hb

/-- A call that adds to a store. -/
inductive StoreCall where
  | fact (f : Fact)
  | facts (fs : List Fact)
  | link (l : Link)
  | links (ls : List Link)

namespace StoreCall

/-- The facts that a call adds. -/
def addedFacts : StoreCall → List Fact
  | fact f => [f]
  | facts fs => fs
  | link _ | links _ => []

/-- The links that a call adds. -/
def addedLinks : StoreCall → List Link
  | fact _ | facts _ => []
  | link l => [l]
  | links ls => ls

end StoreCall

namespace Store

/-- The store after a call. -/
def perform (s : Store) : StoreCall → Store
  | .fact f => s.addFact f
  | .facts fs => s.addFacts fs
  | .link l => s.addLink l
  | .links ls => s.addLinks ls

/-- The store after calls in order. -/
def performAll (s : Store) (calls : List StoreCall) : Store := calls.foldl perform s

/-- Every index of a store tracks its facts or its links. -/
structure IsIndexed (s : Store) : Prop where
  byEntity : s.byEntity.Tracks (·.entity) s.facts.toList
  byAttr : s.byAttr.Tracks (·.attr) s.facts.toList
  byValue : s.byValue.Tracks (fun f => (f.attr, f.value.canonical)) s.facts.toList
  bySource : s.bySource.Tracks (·.source) s.links.toList
  byLabel : s.byLabel.Tracks (·.label) s.links.toList

/-- A store without facts and links is indexed. -/
theorem isIndexed_empty (limits : CatalogLimits) : (empty limits).IsIndexed where
  byEntity := Index.tracks_empty _
  byAttr := Index.tracks_empty _
  byValue := Index.tracks_empty _
  bySource := Index.tracks_empty _
  byLabel := Index.tracks_empty _

section Calls

variable {s : Store}

/-- A fact is added to the indexes of facts. -/
theorem IsIndexed.addFact (h : s.IsIndexed) (f : Fact) : (s.addFact f).IsIndexed where
  byEntity := by simpa [Store.addFact] using h.byEntity.add f
  byAttr := by simpa [Store.addFact] using h.byAttr.add f
  byValue := by simpa [Store.addFact] using h.byValue.add f
  bySource := h.bySource
  byLabel := h.byLabel

/-- A link is added to the indexes of links. -/
theorem IsIndexed.addLink (h : s.IsIndexed) (l : Link) : (s.addLink l).IsIndexed where
  byEntity := h.byEntity
  byAttr := h.byAttr
  byValue := h.byValue
  bySource := by simpa [Store.addLink] using h.bySource.add l
  byLabel := by simpa [Store.addLink] using h.byLabel.add l

/-- Facts that are added one after the other are indexed. -/
theorem IsIndexed.addFacts (h : s.IsIndexed) (fs : List Fact) : (s.addFacts fs).IsIndexed := by
  induction fs generalizing s with
  | nil => exact h
  | cons f rest ih => exact ih (h.addFact f)

/-- Links that are added one after the other are indexed. -/
theorem IsIndexed.addLinks (h : s.IsIndexed) (ls : List Link) : (s.addLinks ls).IsIndexed := by
  induction ls generalizing s with
  | nil => exact h
  | cons l rest ih => exact ih (h.addLink l)

end Calls

/-! ## What calls add

Facts and links are kept apart, so a sequence of calls does what adding all its facts and then all
its links does. -/

section Added

variable (s : Store)

/-- Links that are added leave the facts alone. -/
theorem facts_addLinks (ls : List Link) : (s.addLinks ls).facts = s.facts :=
  unchanged_addLinks (fun _ _ => rfl) s ls

/-- Links that are added go to the end in order. -/
theorem toList_links_addLinks (ls : List Link) :
    (s.addLinks ls).links.toList = s.links.toList ++ ls := by
  induction ls generalizing s with
  | nil => simp [addLinks]
  | cons l rest ih =>
    rw [addLinks, List.foldl_cons]
    exact (ih (s.addLink l)).trans (by simp [addLink])

/-- Facts that are added leave the limits of the catalog alone. -/
theorem limits_addFacts (fs : List Fact) : (s.addFacts fs).limits = s.limits :=
  unchanged_addFacts (fun _ _ => rfl) s fs

/-- Links that are added leave the limits of the catalog alone. -/
theorem limits_addLinks (ls : List Link) : (s.addLinks ls).limits = s.limits :=
  unchanged_addLinks (fun _ _ => rfl) s ls

/-- A link before some facts can as well be added after them. -/
theorem addFacts_addLink (l : Link) (fs : List Fact) :
    (s.addLink l).addFacts fs = (s.addFacts fs).addLink l := by
  induction fs generalizing s with
  | nil => rfl
  | cons f rest ih => exact ih (s.addFact f)

/-- Links before some facts can as well be added after them. -/
theorem addFacts_addLinks (ls : List Link) (fs : List Fact) :
    (s.addLinks ls).addFacts fs = (s.addFacts fs).addLinks ls := by
  induction ls generalizing s with
  | nil => rfl
  | cons l rest ih =>
    refine (ih (s.addLink l)).trans ?_
    rw [addFacts_addLink]
    rfl

/-- Facts after others are added to what these led to. -/
theorem addFacts_append (fs others : List Fact) :
    s.addFacts (fs ++ others) = (s.addFacts fs).addFacts others :=
  List.foldl_append

/-- Links after others are added to what these led to. -/
theorem addLinks_append (ls others : List Link) :
    s.addLinks (ls ++ others) = (s.addLinks ls).addLinks others :=
  List.foldl_append

/-- Calls after others lead on from where these led. -/
theorem performAll_append (calls others : List StoreCall) :
    s.performAll (calls ++ others) = (s.performAll calls).performAll others :=
  List.foldl_append

/-- A call adds its facts and its links. -/
theorem perform_eq (call : StoreCall) :
    s.perform call = (s.addFacts call.addedFacts).addLinks call.addedLinks := by
  cases call <;> rfl

/-- A sequence of calls adds all facts and all links. -/
theorem performAll_eq (calls : List StoreCall) :
    s.performAll calls = (s.addFacts (calls.flatMap (·.addedFacts))).addLinks
      (calls.flatMap (·.addedLinks)) := by
  induction calls generalizing s with
  | nil => rfl
  | cons call rest ih =>
    rw [performAll, List.foldl_cons, ← performAll, ih, perform_eq, addFacts_addLinks,
      List.flatMap_cons, List.flatMap_cons, addFacts_append, addLinks_append]

end Added

/-! ## What a store tells -/

/-- The names of entities in facts and links. -/
def entityNames (facts : List Fact) (links : List Link) : List String :=
  facts.map (·.entity) ++ links.flatMap fun l => [l.source, l.target]

/-- What a store tells is what going through its facts and links tells. -/
structure Scans (s : Store) (limits : CatalogLimits) (facts : List Fact) (links : List Link) :
    Prop where
  toList_facts : s.facts.toList = facts
  toList_links : s.links.toList = links
  factsOfEntity : ∀ entity, s.factsOfEntity entity = facts.filter (·.entity == entity)
  factsOfAttr : ∀ attr, s.factsOfAttr attr = facts.filter (·.attr == attr)
  factsOfValue : ∀ attr value, s.factsOfValue attr value =
    facts.filter fun f => f.attr == attr && f.value.canonical == value.canonical
  linksFrom : ∀ source, s.linksFrom source = links.filter (·.source == source)
  linksOfLabel : ∀ label, s.linksOfLabel label = links.filter (·.label == label)
  pairwise_attributes : s.attributes.Pairwise (· < ·)
  mem_attributes : ∀ attr, attr ∈ s.attributes ↔ ∃ f ∈ facts, f.attr = attr
  stats : s.stats =
    { factCount := facts.length
      entityCount := (entityNames facts links).toFinset.card
      attrCount := (facts.map (·.attr)).toFinset.card
      linkCount := links.length }
  catalogEntry? : ∀ attr, s.catalogEntry? attr =
    if ∃ f ∈ facts, f.attr = attr then
      some (.ofValues limits attr ((facts.filter (·.attr == attr)).map (·.value)))
    else none
  catalog : s.catalog.map some = s.attributes.map s.catalogEntry?

namespace IsIndexed

variable {s : Store}

/-- Facts with an attribute are found by the index. -/
theorem factsOfAttr_eq (h : s.IsIndexed) (attr : String) :
    s.factsOfAttr attr = s.facts.toList.filter (·.attr == attr) :=
  h.byAttr.select_eq_filter attr

/-- The attributes are those of the facts. -/
theorem mem_attributes_iff (h : s.IsIndexed) {attr : String} :
    attr ∈ s.attributes ↔ ∃ f ∈ s.facts.toList, f.attr = attr := by
  rw [attributes, mem_sortNames, h.byAttr.mem_keys]

/-- The entities are those of the facts and links. -/
theorem length_entities (h : s.IsIndexed) :
    s.entities.length = (entityNames s.facts.toList s.links.toList).toFinset.card := by
  rw [entities, length_distinctBy_id]
  congr 1
  ext name
  simp only [entityNames, List.mem_toFinset, List.mem_append, h.byEntity.mem_keys, List.mem_map]

/-- An attribute has an entry where some fact has it. -/
theorem catalogEntry?_eq (h : s.IsIndexed) (attr : String) :
    s.catalogEntry? attr =
      if ∃ f ∈ s.facts.toList, f.attr = attr then
        some (.ofValues s.limits attr ((s.facts.toList.filter (·.attr == attr)).map (·.value)))
      else none := by
  unfold catalogEntry?
  rw [h.factsOfAttr_eq]
  split
  · next hnone =>
    rw [if_neg]
    rintro ⟨f, hf, hattr⟩
    exact absurd (beq_iff_eq.2 hattr) (List.filter_eq_nil_iff.1 hnone f hf)
  · next facts hfacts =>
    rw [if_pos]
    by_contra hno
    push Not at hno
    exact hfacts (List.filter_eq_nil_iff.2 fun f hf => by simpa using hno f hf)

/-- The catalog has the entry of each attribute. -/
theorem map_some_catalog (h : s.IsIndexed) :
    s.catalog.map some = s.attributes.map s.catalogEntry? := by
  rw [Store.catalog, List.map_map]
  refine List.map_congr_left fun attr hattr => ?_
  rw [h.catalogEntry?_eq, if_pos (h.mem_attributes_iff.1 hattr), Function.comp_apply,
    h.factsOfAttr_eq]

/-- What an indexed store tells is what going through its facts and links tells. -/
theorem scans (h : s.IsIndexed) : s.Scans s.limits s.facts.toList s.links.toList where
  toList_facts := rfl
  toList_links := rfl
  factsOfEntity := h.byEntity.select_eq_filter
  factsOfAttr := h.factsOfAttr_eq
  factsOfValue attr value := h.byValue.select_eq_filter (attr, value.canonical)
  linksFrom := h.bySource.select_eq_filter
  linksOfLabel := h.byLabel.select_eq_filter
  pairwise_attributes := pairwise_sortNames s.byAttr.nodup_keys
  mem_attributes _ := h.mem_attributes_iff
  stats := by
    rw [Store.stats, h.length_entities, h.byAttr.length_keys, Array.length_toList,
      Array.length_toList]
  catalogEntry? := h.catalogEntry?_eq
  catalog := h.map_some_catalog

end IsIndexed

/-- Whatever the calls that add to a store, what it tells is what going through all that was added
tells. -/
theorem scanned_performAll (limits : CatalogLimits) (calls : List StoreCall) :
    ((empty limits).performAll calls).Scans limits (calls.flatMap (·.addedFacts))
      (calls.flatMap (·.addedLinks)) := by
  rw [performAll_eq]
  have hindexed := ((isIndexed_empty limits).addFacts (calls.flatMap (·.addedFacts))).addLinks
    (calls.flatMap (·.addedLinks))
  have hscans := hindexed.scans
  rwa [limits_addLinks, limits_addFacts, facts_addLinks, toList_facts_addFacts,
    toList_links_addLinks, links_addFacts] at hscans

end Store

end Factbase
