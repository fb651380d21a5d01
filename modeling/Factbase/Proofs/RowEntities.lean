import Factbase.Proofs.RowFacts

/-! # The entities of rows

Rows with ids of their own become entities named by these, and rows without one become entities
named by their numbers. Both are names of one kind, so a row that is named by its number and a row
whose id is that number become the same entity. As long as the ids differ, no other two rows do
(`Row.shareEntity_factsOfAll`). -/

namespace Factbase.Row

/-- Numbers are told apart by their texts. -/
theorem toString_injective : Function.Injective (toString : Nat → String) := by
  intro m n h
  have hdigits : Nat.toDigits 10 m = Nat.toDigits 10 n := by
    simpa [Nat.toList_repr] using congrArg String.toList h
  calc m = Nat.ofDigitChars 10 (Nat.toDigits 10 m) 0 := Nat.ofDigitChars_ten_toDigits.symm
    _ = Nat.ofDigitChars 10 (Nat.toDigits 10 n) 0 := by rw [hdigits]
    _ = n := Nat.ofDigitChars_ten_toDigits

variable {entityType : String} {rows : List Json} {r s : Json} {i j : Nat} {fs gs : List Fact}

/-- Different rows have different ids when no id occurs twice. -/
theorem explicitId?_ne (hids : (rows.filterMap explicitId?).Nodup) (hij : i ≠ j)
    (hr : rows[i]? = some r) (hs : rows[j]? = some s) {id : String}
    (hid : explicitId? r = some id) : explicitId? s ≠ some id := by
  rw [List.Nodup, List.pairwise_filterMap, List.pairwise_iff_getElem] at hids
  obtain ⟨hi, rfl⟩ := List.getElem?_eq_some_iff.1 hr
  obtain ⟨hj, rfl⟩ := List.getElem?_eq_some_iff.1 hs
  intro hid'
  -- the ids are told apart in the order of the rows
  rcases Nat.lt_or_gt_of_ne hij with hlt | hgt
  · exact hids i j hi hj hlt id hid id hid' rfl
  · exact hids j i hj hi hgt id hid' id hid rfl

/-- One row is named by its number, and the number is the id of the other. -/
def Clash (i : Nat) (r : Json) (j : Nat) (s : Json) : Prop :=
  explicitId? r = none ∧ explicitId? s = some (toString i) ∨
    explicitId? s = none ∧ explicitId? r = some (toString j)

/-- Rows with different ids have the same name only when a number clashes with an id. -/
theorem entityName_eq_iff (hij : i ≠ j)
    (hids : ∀ id, explicitId? r = some id → explicitId? s ≠ some id) :
    entityName entityType i r = entityName entityType j s ↔ Clash i r j s := by
  have hname : entityName entityType i r = entityName entityType j s ↔
      (explicitId? r).getD (toString i) = (explicitId? s).getD (toString j) :=
    String.append_right_inj _
  rw [hname, Clash]
  cases hr : explicitId? r with
  | none =>
    cases hs : explicitId? s with
    | none => simpa using fun heq => hij (toString_injective heq)
    | some id => simp [eq_comm]
  | some id =>
    cases hs : explicitId? s with
    | none => simp
    | some id' =>
      have hne : id' ≠ id := fun heq => hids id hr (hs.trans (congrArg some heq))
      simpa using hne.symm

/-- All facts of a row are about its entity. -/
theorem Tells.entity_eq {entity : String} (h : Tells entity entityType r fs) {f : Fact}
    (hf : f ∈ fs) : f.entity = entity := by
  obtain ⟨scalars, rfl, -⟩ := h
  rcases List.mem_cons.1 hf with rfl | hf
  · rfl
  · obtain ⟨s, -, rfl⟩ := List.mem_map.1 hf
    rfl

/-- Facts of two rows are about the same entity exactly when the rows have the same name. -/
theorem share_iff {entity entity' : String} (hr : Tells entity entityType r fs)
    (hs : Tells entity' entityType s gs) :
    (∃ f ∈ fs, ∃ g ∈ gs, f.entity = g.entity) ↔ entity = entity' := by
  constructor
  · rintro ⟨f, hf, g, hg, heq⟩
    rw [← hr.entity_eq hf, heq, hs.entity_eq hg]
  · rintro rfl
    -- the fact that names the type is always there
    have htype : ∀ {row : Json} {facts : List Fact}, Tells entity entityType row facts →
        .ofType entity entityType ∈ facts := by
      rintro row facts ⟨scalars, rfl, -⟩
      exact List.mem_cons_self
    exact ⟨_, htype hr, _, htype hs, rfl⟩

/-- Objects among whose ids none occurs twice give their facts one after the other, and facts of two
of them are about the same entity exactly when one has no id and the id of the other is the number
of the one. So each has an entity of its own when all have ids, when none has, and whenever no id is
the number of a row without one. -/
theorem shareEntity_factsOfAll (entityType : String) (rows : List Json)
    (hrows : ∀ row ∈ rows, isObject row = true) (hids : (rows.filterMap explicitId?).Nodup) :
    ∃ parts : List (List Fact), factsOfAll entityType rows = .ok parts.flatten ∧
      parts.length = rows.length ∧
      (∀ i row part, rows[i]? = some row → parts[i]? = some part →
        facts? entityType i row = some part) ∧
      ∀ (i j : Nat) (r s : Json) (fs gs : List Fact), i ≠ j →
        rows[i]? = some r → rows[j]? = some s → parts[i]? = some fs → parts[j]? = some gs →
        ((∃ f ∈ fs, ∃ g ∈ gs, f.entity = g.entity) ↔ Clash i r j s) := by
  obtain ⟨parts, hparts, hlength, hget⟩ := exists_parts entityType hrows
  refine ⟨parts, hparts, hlength, hget, fun i j r s fs gs hij hr hs hfs hgs => ?_⟩
  rw [share_iff (tells_of_facts? (hget i r fs hr hfs)) (tells_of_facts? (hget j s gs hs hgs)),
    entityName_eq_iff hij fun _ => explicitId?_ne hids hij hr hs]

/-- Among three rows the second has no id and the third has the number of the second as its id: they
become one entity, and the first stays apart from the second. -/
theorem shareEntity_factsOfAll_three :
    (∀ row ∈ [Json.object [("id", .text "a")], .object [], .object [("id", .integer 1)]],
      isObject row = true) ∧
    ([Json.object [("id", .text "a")], .object [], .object [("id", .integer 1)]].filterMap
      explicitId?).Nodup ∧
    ∃ parts : List (List Fact),
      factsOfAll "post" [.object [("id", .text "a")], .object [], .object [("id", .integer 1)]] =
        .ok parts.flatten ∧
      (∀ fs gs, parts[1]? = some fs → parts[2]? = some gs →
        ∃ f ∈ fs, ∃ g ∈ gs, f.entity = g.entity) ∧
      ∀ fs gs, parts[0]? = some fs → parts[1]? = some gs →
        ¬ ∃ f ∈ fs, ∃ g ∈ gs, f.entity = g.entity := by
  have hrows : ∀ row ∈ [Json.object [("id", .text "a")], .object [], .object [("id", .integer 1)]],
      isObject row = true := by decide
  have hids : ([Json.object [("id", .text "a")], .object [], .object [("id", .integer 1)]].filterMap
      explicitId?).Nodup := by decide
  obtain ⟨parts, hparts, -, -, hshare⟩ := shareEntity_factsOfAll "post" _ hrows hids
  refine ⟨hrows, hids, parts, hparts, fun fs gs hfs hgs => ?_, fun fs gs hfs hgs => ?_⟩
  · exact (hshare 1 2 _ _ fs gs (by decide) rfl rfl hfs hgs).2 (.inl ⟨rfl, by decide⟩)
  · rw [hshare 0 1 _ _ fs gs (by decide) rfl rfl hfs hgs]
    unfold Clash
    decide

/-- A row without an id and a row whose id is zero become one entity. -/
theorem not_shareEntity_factsOfAll :
    ¬ ∀ (entityType : String) (rows : List Json), (∀ row ∈ rows, isObject row = true) →
      (rows.filterMap explicitId?).Nodup →
      ∀ (i j : Nat) (r s : Json) (fs gs : List Fact), i ≠ j →
        rows[i]? = some r → rows[j]? = some s →
        facts? entityType i r = some fs → facts? entityType j s = some gs →
        ¬ ∃ f ∈ fs, ∃ g ∈ gs, f.entity = g.entity := by
  intro h
  refine h "post" [.object [("a", .integer 1)], .object [("id", .text "0")]] (by decide)
    (by decide) 0 1 _ _ _ _ (by decide) rfl rfl rfl rfl ?_
  exact ⟨.ofType "post:0" "post", by decide, .ofType "post:0" "post", by decide, rfl⟩

end Factbase.Row
