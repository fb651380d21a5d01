import Std.Data.HashSet

/-! # Ordered and duplicate-free lists

`insertOrdered` keeps a list in strictly increasing order; `orderedSet` is a set as such a list,
and the names that a program talks about are held as ordered sets of strings. `distinctBy` keeps
the first of the elements that share a key and leaves the order alone.

A finite map from names is an association list whose names strictly increase (`IsOrdered`);
`putEntry` gives a name its value and keeps the names in order. -/

namespace Factbase

/-- Puts an element in its place, unless an equal one is there. -/
def insertOrdered {α : Type} (order : α → α → Ordering) (a : α) : List α → List α
  | [] => [a]
  | b :: rest =>
    match order a b with
    | .lt => a :: b :: rest
    | .eq => b :: rest
    | .gt => b :: insertOrdered order a rest

/-- The elements of a list in increasing order, equal ones once. -/
def orderedSet {α : Type} (order : α → α → Ordering) (as : List α) : List α :=
  as.foldl (fun acc a => insertOrdered order a acc) []

/-- A set of names in increasing order. -/
def nameSet (names : List String) : List String := orderedSet compare names

section OrderedSet

variable {α : Type} {order : α → α → Ordering} {a x : α} {as : List α}

/-- Putting an element in its place adds that element only. -/
theorem mem_insertOrdered [Std.LawfulEqCmp order] :
    x ∈ insertOrdered order a as ↔ x = a ∨ x ∈ as := by
  induction as with
  | nil => simp [insertOrdered]
  | cons b rest ih =>
    unfold insertOrdered
    split
    · simp
    · next heq =>
      have hab : a = b := Std.LawfulEqCmp.eq_of_compare heq
      simp [hab]
    · rw [List.mem_cons, ih, List.mem_cons, or_left_comm]

/-- Putting an element in its place keeps the order. -/
theorem pairwise_insertOrdered [Std.TransCmp order] [Std.LawfulEqCmp order]
    (h : as.Pairwise fun b c => order b c = .lt) :
    (insertOrdered order a as).Pairwise fun b c => order b c = .lt := by
  induction as with
  | nil => simp [insertOrdered]
  | cons b rest ih =>
    have hb := List.pairwise_cons.1 h
    unfold insertOrdered
    split
    · next hlt =>
      refine List.pairwise_cons.2 ⟨fun c hc => ?_, h⟩
      rcases List.mem_cons.1 hc with rfl | hc
      · exact hlt
      · exact Std.TransCmp.lt_trans hlt (hb.1 c hc)
    · exact h
    · next hgt =>
      refine List.pairwise_cons.2 ⟨fun c hc => ?_, ih hb.2⟩
      rcases mem_insertOrdered.1 hc with rfl | hc
      · exact Std.OrientedCmp.lt_of_gt hgt
      · exact hb.1 c hc

/-- An ordered set has the members of the list. -/
theorem mem_orderedSet [Std.LawfulEqCmp order] : x ∈ orderedSet order as ↔ x ∈ as := by
  have hfold : ∀ acc : List α,
      x ∈ as.foldl (fun acc a => insertOrdered order a acc) acc ↔ x ∈ acc ∨ x ∈ as := by
    induction as with
    | nil => simp
    | cons b rest ih =>
      intro acc
      rw [List.foldl_cons, ih, mem_insertOrdered, List.mem_cons, or_assoc, or_left_comm]
  simpa [orderedSet] using hfold []

/-- The members of an ordered set strictly increase. -/
theorem pairwise_orderedSet [Std.TransCmp order] [Std.LawfulEqCmp order] :
    (orderedSet order as).Pairwise fun b c => order b c = .lt := by
  have hfold : ∀ acc : List α, (acc.Pairwise fun b c => order b c = .lt) →
      (as.foldl (fun acc a => insertOrdered order a acc) acc).Pairwise
        fun b c => order b c = .lt := by
    induction as with
    | nil => exact fun acc h => h
    | cons b rest ih => exact fun acc h => ih _ (pairwise_insertOrdered h)
  exact hfold [] .nil

/-- Strictly increasing lists with the same members are equal. -/
theorem eq_of_pairwise_of_mem_iff [Std.OrientedCmp order] {bs : List α}
    (has : as.Pairwise fun b c => order b c = .lt) (hbs : bs.Pairwise fun b c => order b c = .lt)
    (h : ∀ x, x ∈ as ↔ x ∈ bs) : as = bs := by
  have hnodup : ∀ {cs : List α}, (cs.Pairwise fun b c => order b c = .lt) → cs.Nodup := by
    intro cs hcs
    refine hcs.imp ?_
    rintro a b hlt rfl
    have hself : order a a = .eq := Std.ReflCmp.compare_self
    simp [hself] at hlt
  refine List.Perm.eq_of_pairwise (fun a b _ _ hab hba => ?_) has hbs
    ((List.perm_ext_iff_of_nodup (hnodup has) (hnodup hbs)).2 h)
  rw [Std.OrientedCmp.gt_of_lt hab] at hba
  simp at hba

/-- A set of names has the names of the list. -/
@[simp] theorem mem_nameSet {name : String} {names : List String} :
    name ∈ nameSet names ↔ name ∈ names :=
  mem_orderedSet

end OrderedSet

/-- The first of the elements with each key, of those whose key is not in `seen`. -/
def distinctAfter {α κ : Type} [BEq κ] [Hashable κ] (key : α → κ) (seen : Std.HashSet κ) :
    List α → List α
  | [] => []
  | a :: rest =>
    let k := key a
    if seen.contains k then distinctAfter key seen rest
    else a :: distinctAfter key (seen.insert k) rest

/-- The first of the elements with each key, in their order. -/
def distinctBy {α κ : Type} [BEq κ] [Hashable κ] (key : α → κ) (as : List α) : List α :=
  distinctAfter key ∅ as

section Distinct

variable {α κ : Type} [BEq κ] [Hashable κ] {key : α → κ} {seen : Std.HashSet κ} {as : List α}

/-- What stays of a list when repeated keys are dropped is a part of it. -/
theorem sublist_distinctAfter : (distinctAfter key seen as).Sublist as := by
  induction as generalizing seen with
  | nil => exact .slnil
  | cons a rest ih =>
    simp only [distinctAfter]
    split
    · exact ih.cons a
    · exact ih.cons_cons a

/-- Dropping repeated keys adds nothing. -/
theorem mem_of_mem_distinctBy {a : α} (h : a ∈ distinctBy key as) : a ∈ as :=
  sublist_distinctAfter.mem h

/-- Repeated keys of images are dropped as those of what they are images of. -/
theorem distinctBy_map {β : Type} {f : β → α} {bs : List β} :
    distinctBy key (bs.map f) = (distinctBy (fun b => key (f b)) bs).map f := by
  have hafter : ∀ seen, distinctAfter key seen (bs.map f) =
      (distinctAfter (fun b => key (f b)) seen bs).map f := by
    induction bs with
    | nil => exact fun _ => rfl
    | cons b rest ih =>
      intro seen
      simp only [List.map_cons, distinctAfter, ih]
      split <;> rfl
  exact hafter ∅

variable [LawfulBEq κ] [LawfulHashable κ]

/-- Every key that is not in `seen` stays. -/
theorem exists_mem_distinctAfter {a : α} (ha : a ∈ as) (hseen : key a ∉ seen) :
    ∃ b ∈ distinctAfter key seen as, key b = key a := by
  induction as generalizing seen with
  | nil => simp at ha
  | cons c rest ih =>
    simp only [distinctAfter]
    split
    · next hc =>
      rcases List.mem_cons.1 ha with rfl | ha
      · exact absurd (Std.HashSet.contains_iff_mem.1 hc) hseen
      · exact ih ha hseen
    · by_cases hca : key c = key a
      · exact ⟨c, List.mem_cons_self, hca⟩
      · rcases List.mem_cons.1 ha with rfl | ha
        · exact absurd rfl hca
        · have hnew : key a ∉ seen.insert (key c) := by simp [hca, hseen]
          obtain ⟨b, hb, hkey⟩ := ih ha hnew
          exact ⟨b, List.mem_cons_of_mem _ hb, hkey⟩

/-- What stays has keys that are not in `seen`, each once. -/
theorem pairwise_distinctAfter :
    (∀ a ∈ distinctAfter key seen as, key a ∉ seen) ∧
      (distinctAfter key seen as).Pairwise fun a b => key a ≠ key b := by
  induction as generalizing seen with
  | nil => exact ⟨by simp [distinctAfter], .nil⟩
  | cons a rest ih =>
    simp only [distinctAfter]
    split
    · exact ih
    · next ha =>
      obtain ⟨hnew, hpairwise⟩ := @ih (seen.insert (key a))
      simp only [Std.HashSet.mem_insert, beq_iff_eq, not_or] at hnew
      constructor
      · exact List.forall_mem_cons.2
          ⟨fun hmem => ha (Std.HashSet.contains_iff_mem.2 hmem), fun b hb => (hnew b hb).2⟩
      · exact List.pairwise_cons.2 ⟨fun b hb => (hnew b hb).1, hpairwise⟩

/-- Dropping repeated keys leaves each key once. -/
theorem pairwise_distinctBy : (distinctBy key as).Pairwise fun a b => key a ≠ key b :=
  pairwise_distinctAfter.2

variable (key) in
/-- Dropping repeated keys keeps every key. -/
theorem exists_mem_distinctBy {a : α} (ha : a ∈ as) :
    ∃ b ∈ distinctBy key as, key b = key a :=
  exists_mem_distinctAfter ha (by simp)

/-- Remembering the keys that were seen gives what comparing keys with each other gives. -/
theorem distinctBy_eq_eraseDupsBy :
    distinctBy key as = as.eraseDupsBy fun a b => key a == key b := by
  have hloop : ∀ (seen : Std.HashSet κ) (kept : List α),
      (∀ k, k ∈ seen ↔ ∃ b ∈ kept, key b = k) →
      List.eraseDupsBy.loop (fun a b => key a == key b) as kept =
        kept.reverse ++ distinctAfter key seen as := by
    induction as with
    | nil => exact fun _ _ _ => (List.append_nil _).symm
    | cons a rest ih =>
      intro seen kept hseen
      have hany : kept.any (fun b => key a == key b) = seen.contains (key a) := by
        rw [Bool.eq_iff_iff, Std.HashSet.contains_iff_mem, hseen, List.any_eq_true]
        exact exists_congr fun b => and_congr_right fun _ => beq_iff_eq.trans eq_comm
      rw [List.eraseDupsBy.loop, hany, distinctAfter]
      cases hcontains : seen.contains (key a) with
      | true => exact ih seen kept hseen
      | false =>
        have hinsert : ∀ k, k ∈ seen.insert (key a) ↔ ∃ b ∈ a :: kept, key b = k := by
          intro k
          simp [hseen]
        exact (ih _ _ hinsert).trans (by simp)
  exact (hloop ∅ [] (by simp)).symm

/-- Keys that tell the same elements apart leave the same elements. -/
theorem distinctBy_congr {κ' : Type} [BEq κ'] [Hashable κ'] [LawfulBEq κ'] [LawfulHashable κ']
    {key' : α → κ'} (h : ∀ a b, key a = key b ↔ key' a = key' b) :
    distinctBy key as = distinctBy key' as := by
  have hsame : (fun a b => key a == key b) = fun a b => key' a == key' b := by
    funext a b
    rw [Bool.eq_iff_iff, beq_iff_eq, beq_iff_eq, h]
  rw [distinctBy_eq_eraseDupsBy, distinctBy_eq_eraseDupsBy, hsame]

/-- Where no key is repeated, all elements stay. -/
theorem distinctBy_of_pairwise (h : as.Pairwise fun a b => key a ≠ key b) :
    distinctBy key as = as := by
  have hafter : ∀ seen : Std.HashSet κ, (∀ a ∈ as, key a ∉ seen) →
      distinctAfter key seen as = as := by
    induction as with
    | nil => exact fun _ _ => rfl
    | cons a rest ih =>
      intro seen hseen
      obtain ⟨hne, hrest⟩ := List.pairwise_cons.1 h
      obtain ⟨ha, hothers⟩ := List.forall_mem_cons.1 hseen
      rw [distinctAfter, if_neg (by simpa using ha), ih hrest]
      intro b hb
      rw [Std.HashSet.mem_insert, beq_iff_eq, not_or]
      exact ⟨hne b hb, hothers b hb⟩
  exact hafter ∅ (by simp)

end Distinct

/-- The names of an association list strictly increase. -/
def IsOrdered {α : Type} (entries : List (String × α)) : Prop :=
  entries.Pairwise fun a b => a.1 < b.1

/-- Gives a name its value, in the place of the value that it has or else in its place in the
order. -/
def putEntry {α : Type} (name : String) (value : α) :
    List (String × α) → List (String × α)
  | [] => [(name, value)]
  | e :: rest =>
    if name < e.1 then (name, value) :: e :: rest
    else if name = e.1 then (name, value) :: rest
    else e :: putEntry name value rest

/-- An entry after putting one is that one or was there before. -/
theorem mem_of_mem_putEntry {α : Type} {name : String} {value : α} {e : String × α}
    {entries : List (String × α)} (h : e ∈ putEntry name value entries) :
    e = (name, value) ∨ e ∈ entries := by
  induction entries with
  | nil => simpa [putEntry] using h
  | cons d rest ih =>
    unfold putEntry at h
    split at h
    · simpa using h
    · split at h
      · rcases List.mem_cons.1 h with h | h
        · exact .inl h
        · exact .inr (List.mem_cons_of_mem _ h)
      · rcases List.mem_cons.1 h with h | h
        · exact .inr (h ▸ List.mem_cons_self)
        · exact (ih h).imp_right (List.mem_cons_of_mem _)

/-- Putting an entry keeps the names in order. -/
theorem IsOrdered.putEntry {α : Type} {entries : List (String × α)} (h : IsOrdered entries)
    (name : String) (value : α) : IsOrdered (putEntry name value entries) := by
  induction entries with
  | nil => simp [Factbase.putEntry, IsOrdered]
  | cons d rest ih =>
    have hd := List.pairwise_cons.1 h
    unfold Factbase.putEntry
    split
    · next hlt =>
      refine List.pairwise_cons.2 ⟨fun e he => ?_, h⟩
      rcases List.mem_cons.1 he with rfl | he
      · exact hlt
      · exact String.lt_trans hlt (hd.1 e he)
    · next hle =>
      split
      · next heq => exact List.pairwise_cons.2 ⟨fun e he => heq ▸ hd.1 e he, hd.2⟩
      · next hne =>
        refine List.pairwise_cons.2 ⟨fun e he => ?_, ih hd.2⟩
        rcases mem_of_mem_putEntry he with rfl | he
        · exact Std.lt_of_le_of_ne (String.not_lt.1 hle) (Ne.symm hne)
        · exact hd.1 e he

/-- The value of a name in a list with a first entry. -/
theorem lookup_cons_eq_ite {α : Type} (name : String) (value : α) (other : String)
    (entries : List (String × α)) :
    ((name, value) :: entries).lookup other =
      if other = name then some value else entries.lookup other := by
  rw [List.lookup_cons]
  by_cases h : other = name
  · rw [if_pos h, beq_iff_eq.2 h]
  · rw [if_neg h, beq_eq_false_iff_ne.2 h]

/-- A value that is looked up stands in an entry. -/
theorem mem_of_lookup_eq_some {α : Type} {name : String} {value : α} {entries : List (String × α)}
    (h : entries.lookup name = some value) : (name, value) ∈ entries := by
  obtain ⟨front, back, rfl, -⟩ := List.lookup_eq_some_iff.1 h
  exact List.mem_append_right front List.mem_cons_self

/-- No later entry has the first name. -/
theorem IsOrdered.lookup_tail_eq_none {α : Type} {name : String} {value : α}
    {entries : List (String × α)} (h : IsOrdered ((name, value) :: entries)) :
    entries.lookup name = none := by
  refine Option.eq_none_iff_forall_ne_some.2 fun later hlater => ?_
  exact String.lt_irrefl name ((List.pairwise_cons.1 h).1 _ (mem_of_lookup_eq_some hlater))

/-- Where names increase, every entry gives its name the value that is looked up. -/
theorem IsOrdered.mem_iff_lookup {α : Type} {name : String} {value : α}
    {entries : List (String × α)} (h : IsOrdered entries) :
    (name, value) ∈ entries ↔ entries.lookup name = some value := by
  induction entries with
  | nil => simp
  | cons e rest ih =>
    obtain ⟨key, old⟩ := e
    rw [List.mem_cons, Prod.mk.injEq, lookup_cons_eq_ite, ih (List.pairwise_cons.1 h).2]
    split
    · next heq =>
      subst heq
      simp [IsOrdered.lookup_tail_eq_none h, eq_comm]
    · next hne => simp [hne]

/-- Ordered entries that give every name the same value are equal. -/
theorem IsOrdered.ext {α : Type} {entries entries' : List (String × α)} (h : IsOrdered entries)
    (h' : IsOrdered entries') (hlookup : ∀ name, entries.lookup name = entries'.lookup name) :
    entries = entries' := by
  have hnodup : ∀ {es : List (String × α)}, IsOrdered es → es.Nodup := by
    intro es hes
    refine List.Pairwise.imp ?_ hes
    rintro a b hlt rfl
    exact String.lt_irrefl _ hlt
  have hperm : entries.Perm entries' := by
    refine (List.perm_ext_iff_of_nodup (hnodup h) (hnodup h')).2 fun e => ?_
    rw [h.mem_iff_lookup, h'.mem_iff_lookup, hlookup]
  exact List.Perm.eq_of_pairwise (fun _ _ _ _ hab hba => absurd hba (String.lt_asymm hab)) h h'
    hperm

/-- Putting an entry changes the value of its own name only. -/
theorem lookup_putEntry {α : Type} (name : String) (value : α) (other : String)
    (entries : List (String × α)) :
    (putEntry name value entries).lookup other =
      if other = name then some value else entries.lookup other := by
  induction entries with
  | nil => exact lookup_cons_eq_ite name value other []
  | cons e rest ih =>
    obtain ⟨key, old⟩ := e
    unfold putEntry
    split
    · exact lookup_cons_eq_ite ..
    · split
      · next heq =>
        subst heq
        simp only [lookup_cons_eq_ite]
        split <;> rfl
      · next hne =>
        simp only [lookup_cons_eq_ite, ih]
        by_cases h : other = key
        · subst h
          simp [Ne.symm hne]
        · simp [h]

/-- Putting the value that a name has changes nothing. -/
theorem putEntry_of_lookup {α : Type} {name : String} {value : α} {entries : List (String × α)}
    (hordered : IsOrdered entries) (h : entries.lookup name = some value) :
    putEntry name value entries = entries := by
  induction entries with
  | nil => simp at h
  | cons e rest ih =>
    obtain ⟨key, old⟩ := e
    obtain ⟨hfirst, hrest⟩ := List.pairwise_cons.1 hordered
    rw [lookup_cons_eq_ite] at h
    unfold putEntry
    by_cases hname : name = key
    · rw [if_pos hname] at h
      rw [if_neg (hname ▸ String.lt_irrefl name), if_pos hname, hname, Option.some.inj h]
    · rw [if_neg hname] at h
      have hlt : key < name := hfirst (name, value) ((IsOrdered.mem_iff_lookup hrest).2 h)
      rw [if_neg (String.lt_asymm hlt), if_neg hname, ih hrest h]

end Factbase
