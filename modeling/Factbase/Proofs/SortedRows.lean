import Factbase.Proofs.BackedRows
import Factbase.Proofs.ValueOrder

/-! # The order of the rows

The rows of a query are those of its bindings, each row once; as maps from columns to canonical
texts they differ from each other, for no column occurs twice. With a sort key a row stands where
the first of the bindings that show it stands, which is one with the best key
(`Find.Compiled.Ranks`), and a limit keeps the first rows of those that there are without it
(`Engine.rows_query`).

Keys are compared in a total order, in which nulls come last in either direction
(`Find.Direction.order_eq`), and bindings whose keys are equal stay in the order in which they were
found (`pairwise_stable_mergeSort`). -/

namespace Factbase

namespace Find

/-- Bindings are compared by the values of a sort key. -/
instance (key : SortKey) : Std.TransCmp key.order where
  eq_swap {b d} := by
    unfold SortKey.order
    exact Std.OrientedCmp.eq_swap
  isLE_trans hbc hcd := by
    unfold SortKey.order at *
    exact Std.TransCmp.isLE_trans hbc hcd

end Find

/-! ## Stable sorting -/

section Lists

variable {α β κ : Type} {as : List α} {a b : α} {order : α → α → Ordering}

/-- Of two elements of a list one stands before the other. -/
theorem sublist_or_sublist (ha : a ∈ as) (hb : b ∈ as) (hne : a ≠ b) :
    [a, b].Sublist as ∨ [b, a].Sublist as := by
  obtain ⟨front, rest, rfl⟩ := List.append_of_mem ha
  rcases List.mem_append.1 hb with hb | hb
  · exact .inr ((List.singleton_sublist.2 hb).append (List.singleton_sublist.2 List.mem_cons_self))
  · have hrest := (List.mem_cons.1 hb).resolve_left hne.symm
    exact .inl (((List.singleton_sublist.2 hrest).cons_cons a).trans
      (List.sublist_append_right _ _))

/-- In a list without repetitions no two elements stand before each other. -/
theorem not_sublist_swap (has : as.Nodup) (hab : [a, b].Sublist as) : ¬ [b, a].Sublist as := by
  induction as with
  | nil => simp at hab
  | cons c rest ih =>
    obtain ⟨hc, hrest⟩ := List.nodup_cons.1 has
    intro hba
    cases hab with
    | cons _ hab =>
      cases hba with
      | cons _ hba => exact ih hrest hab hba
      | cons_cons _ _ => exact hc (hab.subset (by simp))
    | cons_cons _ hb =>
      cases hba with
      | cons _ hba => exact hc (hba.subset (by simp))
      | cons_cons _ _ => exact hc (hb.subset (by simp))

/-- Sorting puts a list without repetitions in order and leaves equal elements in the order in which
they stood. -/
theorem pairwise_stable_mergeSort [Std.TransCmp order] (has : as.Nodup) :
    (as.mergeSort fun a b => order a b != .gt).Pairwise fun a b =>
      order a b ≠ .gt ∧ (order a b = .eq → [a, b].Sublist as) := by
  have hswap : ∀ a b, order b a = (order a b).swap := fun _ _ => Std.OrientedCmp.eq_swap
  have hsorted := List.pairwise_mergeSort (bne_gt_trans order) (bne_gt_total order) as
  rw [List.pairwise_iff_forall_sublist] at hsorted ⊢
  intro a b hab
  refine ⟨by simpa using hsorted hab, fun heq => ?_⟩
  have hnodup : (as.mergeSort fun a b => order a b != .gt).Nodup :=
    (List.mergeSort_perm as _).nodup_iff.2 has
  have hne : a ≠ b := by
    rintro rfl
    exact absurd (hnodup.sublist hab) (by simp)
  refine (sublist_or_sublist (List.mem_mergeSort.1 (hab.subset (by simp)))
    (List.mem_mergeSort.1 (hab.subset (by simp))) hne).resolve_right fun hba => ?_
  -- the sort would have kept the other order too
  refine not_sublist_swap hnodup hab
    (List.pair_sublist_mergeSort (bne_gt_trans order) (bne_gt_total order) ?_ hba)
  rw [hswap a b, heq]
  rfl

variable [BEq κ] [Hashable κ]

/-- What stays when repeated keys are dropped is the first with its key. -/
theorem rel_of_mem_distinctBy [LawfulBEq κ] [LawfulHashable κ] {key : α → κ} {R : α → α → Prop}
    (has : as.Pairwise R) (ha : a ∈ distinctBy key as) (hb : b ∈ as) (hkey : key b = key a) :
    b = a ∨ R a b := by
  unfold distinctBy at ha
  generalize (∅ : Std.HashSet κ) = seen at ha
  induction as generalizing seen with
  | nil => simp at hb
  | cons c rest ih =>
    obtain ⟨hc, hrest⟩ := List.pairwise_cons.1 has
    have hfirst := pairwise_distinctAfter.1 a ha
    simp only [distinctAfter] at ha
    split at ha
    · next hseen =>
      rcases List.mem_cons.1 hb with rfl | hb
      · rw [hkey, Std.HashSet.contains_iff_mem] at hseen
        exact absurd hseen hfirst
      · exact ih hrest hb seen ha
    · rcases List.mem_cons.1 ha with rfl | ha
      · exact (List.mem_cons.1 hb).imp_right (hc b)
      · rcases List.mem_cons.1 hb with rfl | hb
        · have hnew := pairwise_distinctAfter.1 a ha
          simp [hkey] at hnew
        · exact ih hrest hb _ ha

end Lists

/-- A name that occurs once is looked up as its entry says. -/
theorem lookup_eq_some_of_mem {α : Type} {entries : List (String × α)} {e : String × α}
    (hentries : (entries.map (·.1)).Nodup) (he : e ∈ entries) : entries.lookup e.1 = some e.2 := by
  induction entries with
  | nil => simp at he
  | cons first rest ih =>
    obtain ⟨hfirst, hrest⟩ := List.nodup_cons.1 hentries
    rw [lookup_cons_eq_ite]
    rcases List.mem_cons.1 he with rfl | he
    · exact if_pos rfl
    · have hmem : e.1 ∈ rest.map (·.1) := List.mem_map_of_mem he
      have hne : e.1 ≠ first.1 := by
        intro heq
        rw [heq] at hmem
        exact hfirst hmem
      rw [if_neg hne]
      exact ih hrest he

namespace Find

/-! ## Columns -/

/-- Each column is bound once. -/
theorem Compile.nodup_columns (aliases : Aliases) {projection : Projection} {fields : List Field}
    (h : (projection.map (·.1)).Nodup) (n : Nat) :
    (((columns aliases projection fields).run n).1.1.map (·.1)).Nodup := by
  induction fields generalizing projection n with
  | nil => exact h
  | cons f rest ih =>
    unfold columns
    split
    · exact ih h n
    · next hnew =>
      refine ih ?_ _
      rw [List.map_append, List.nodup_append]
      refine ⟨h, List.pairwise_singleton _ _, ?_⟩
      rintro name hname other hother rfl
      rw [List.map_singleton, List.mem_singleton] at hother
      obtain ⟨e, he, rfl⟩ := List.mem_map.1 hname
      exact hnew (List.lookup_isSome_iff.2 ⟨e, he, by simp [hother]⟩)

namespace Compiled

variable {c : Compiled} {key : SortKey} {bindings best : List Binding} {b d : Binding}

/-- Bindings show one row, up to canonical texts, if and only if they have one record. -/
theorem record_eq_iff (hcolumns : (c.projection.map (·.1)).Nodup) :
    c.record b = c.record d ↔ (c.row b).map Atom.canonical = (c.row d).map Atom.canonical := by
  constructor
  · intro h
    rw [row, row, List.map_map, List.map_map]
    refine List.map_congr_left fun e he => ?_
    have hcell := congrFun h e.1
    rw [record, record, lookup_eq_some_of_mem hcolumns he] at hcell
    exact Option.some.inj hcell
  · intro h
    rw [record_eq, record_eq]
    funext column
    rw [← lookup_zip_map, ← lookup_zip_map, h]

end Compiled

/-- Whether a binding comes before another in the order of a sort key: its key is less, or the same
and it was found before. -/
def SortKey.Precedes (key : SortKey) (bindings : List Binding) (b d : Binding) : Prop :=
  key.order b d ≠ .gt ∧ (key.order b d = .eq → [b, d].Sublist bindings)

namespace Compiled

variable {c : Compiled} {key : SortKey} {bindings best : List Binding} {b d : Binding}

/-- Bindings, one for each record that some bindings have: those that come first among all with the
same record, in the order of a sort key and the ones without key last. -/
structure Ranks (c : Compiled) (key : SortKey) (bindings best : List Binding) : Prop where
  subset : best ⊆ bindings
  covers : ∀ d ∈ bindings, ∃ b ∈ best, c.record b = c.record d
  isBest : ∀ b ∈ best, ∀ d ∈ bindings, c.record d = c.record b →
    d = b ∨ key.Precedes bindings b d
  pairwise : best.Pairwise (key.Precedes bindings)
  nulls_last : best.Pairwise fun b d =>
    (b.cell key.carrier).isNull = true → (d.cell key.carrier).isNull = true

/-- The bindings whose rows are returned when there is no limit. -/
def shown (c : Compiled) (bindings : List Binding) : List Binding :=
  distinctBy (fun b => (c.row b).map Atom.canonical) (c.sorted bindings)

/-- The rows are those of the bindings that are shown, up to the limit. -/
theorem rows_eq (c : Compiled) (bindings : List Binding) :
    c.rows bindings =
      match c.limit with
      | some n => ((c.shown bindings).map c.row).take n
      | none => (c.shown bindings).map c.row := by
  cases hlimit : c.limit <;> simp only [rows, shown, hlimit, distinctBy_map]

/-- With a sort key the bindings that are shown come in its order, each before all others with its
record. -/
theorem ranks_shown (hcolumns : (c.projection.map (·.1)).Nodup) (hkey : c.sortKey = some key)
    (hbindings : bindings.Nodup) : c.Ranks key bindings (c.shown bindings) := by
  have hsorted : (c.sorted bindings).Pairwise (key.Precedes bindings) := by
    unfold sorted
    rw [hkey]
    exact pairwise_stable_mergeSort hbindings
  have hmem : ∀ b, b ∈ c.sorted bindings ↔ b ∈ bindings := by
    intro b
    unfold sorted
    rw [hkey]
    exact List.mem_mergeSort
  have hpairwise := hsorted.sublist (sublist_distinctAfter : (c.shown bindings).Sublist _)
  refine ⟨fun b hb => (hmem b).1 (mem_of_mem_distinctBy hb), fun d hd => ?_,
    fun b hb d hd hrecord => ?_, hpairwise, hpairwise.imp fun {b d} hbd hnull => ?_⟩
  · obtain ⟨b, hb, hrow⟩ := exists_mem_distinctBy (fun b => (c.row b).map Atom.canonical)
      ((hmem d).2 hd)
    exact ⟨b, hb, (record_eq_iff hcolumns).2 hrow⟩
  · exact rel_of_mem_distinctBy hsorted hb ((hmem d).2 hd) ((record_eq_iff hcolumns).1 hrecord)
  · -- a null in front of a value would be greater
    by_contra hvalue
    rw [Bool.not_eq_true] at hvalue
    refine hbd.1 ?_
    unfold SortKey.order Direction.order
    rw [hnull, hvalue]

/-- The rows have different records. -/
theorem nodup_rows (hcolumns : (c.projection.map (·.1)).Nodup) (bindings : List Binding) :
    ((c.rows bindings).map fun row column =>
      (((c.projection.map (·.1)).zip row).lookup column).map Atom.canonical).Nodup := by
  have hshown : ((c.shown bindings).map c.row).map (fun row column =>
      (((c.projection.map (·.1)).zip row).lookup column).map Atom.canonical) =
      (c.shown bindings).map c.record := by
    rw [List.map_map]
    exact List.map_congr_left fun b _ => (c.record_eq b).symm
  have hnodup : ((c.shown bindings).map c.record).Nodup :=
    List.pairwise_map.2 (pairwise_distinctBy.imp fun hne heq =>
      hne ((record_eq_iff hcolumns).1 heq))
  rw [rows_eq]
  split
  · rw [← hshown] at hnodup
    exact hnodup.sublist ((List.take_sublist _ _).map _)
  · rwa [hshown]

end Compiled

namespace Query

open Compile (compile_eq sortTests)

variable (options : CompilerOptions) (aliases : Aliases) {q : Query}

/-- The columns of a query differ. -/
theorem nodup_columns_compile : ((q.compile options aliases).projection.map (·.1)).Nodup := by
  rw [compile_eq]
  exact Compile.nodup_columns aliases (by simp) _

/-- The limit is passed on by the compilation, which does not depend on it. -/
theorem compile_with_limit (limit : Option Nat) :
    ({ q with limit } : Query).compile options aliases =
      { q.compile options aliases with limit } := by
  rw [compile_eq, compile_eq]
  rfl

/-- The sort key of a query is that of its field: it is carried by the column with the name of the
field, if there is one. -/
theorem exists_sortKey_compile {s : SortField} (hs : q.sortField = some s) :
    ∃ key, (q.compile options aliases).sortKey = some key ∧ key.column = s.field.display ∧
      key.direction = s.direction ∧
      ∀ carrier, (q.compile options aliases).projection.lookup s.field.display = some carrier →
        key.carrier = carrier := by
  have hkey : ∀ (projection : Projection) (n : Nat),
      ∃ key, ((sortTests aliases projection q).run n).1.1 = some key ∧
        key.column = s.field.display ∧ key.direction = s.direction ∧
        ∀ carrier, projection.lookup s.field.display = some carrier → key.carrier = carrier := by
    intro projection n
    unfold sortTests Compile.sortKey
    rw [hs]
    dsimp only
    cases projection.lookup s.field.display with
    | some carrier => exact ⟨_, rfl, rfl, rfl, fun _ h => Option.some.inj h⟩
    | none => exact ⟨_, rfl, rfl, rfl, fun _ h => by simp at h⟩
  rw [compile_eq]
  exact hkey _ _

end Query

end Find

/-- A row as a map from columns to the canonical texts of the cells. -/
def QueryOutput.record (o : QueryOutput) (row : List Atom) : String → Option String :=
  fun column => ((o.columns.zip row).lookup column).map Atom.canonical

namespace Engine

open Find (Query)

/-- The rows of a query that is answered have different records. If the query is ordered, they are
those of bindings of the evaluation, one for each record and each the first with its record, which
come in the order of their sort keys with nulls last, up to the limit. And a limit keeps the first
rows of those that the query has without it. -/
theorem rows_query {e : Engine} {text : String} {o : QueryOutput} (h : (e.query text).1 = .ok o) :
    ∃ q c a, Query.parse text = .ok q ∧ q.compile e.config.compiler (e.aliases q) = c ∧
      e.program.evaluate e.store c.query = .ok a ∧ o.columns = c.projection.map (·.1) ∧
      (o.rows.map o.record).Nodup ∧
      (∀ s, q.sortField = some s → ∃ key best, c.sortKey = some key ∧
        key.column = s.field.display ∧ key.direction = s.direction ∧
        (∀ carrier, c.projection.lookup key.column = some carrier → key.carrier = carrier) ∧
        c.Ranks key a.bindings best ∧
        (q.limit = none → o.rows = best.map c.row) ∧
        ∀ n, q.limit = some n → o.rows = (best.map c.row).take n) ∧
      ∀ n unlimited, q.limit = some n → Query.parse unlimited = .ok { q with limit := none } →
        ∃ o', (e.query unlimited).1 = .ok o' ∧ o'.columns = o.columns ∧
          o.rows = o'.rows.take n := by
  obtain ⟨q, a, hparse, heval, hcolumns, hrows⟩ := exists_of_query_eq_ok h
  have hnodup := Query.nodup_columns_compile e.config.compiler (e.aliases q) (q := q)
  have hlimit : (q.compile e.config.compiler (e.aliases q)).limit = q.limit := by
    rw [Find.Compile.compile_eq]
    rfl
  refine ⟨q, _, a, hparse, rfl, heval, hcolumns, ?_, fun s hs => ?_,
    fun n unlimited hn hother => ?_⟩
  · unfold QueryOutput.record
    rw [hcolumns, hrows]
    exact Find.Compiled.nodup_rows hnodup a.bindings
  · obtain ⟨key, hkey, hcolumn, hdirection, hcarrier⟩ :=
      Query.exists_sortKey_compile e.config.compiler (e.aliases q) hs
    have hbindings : a.bindings.Nodup := by
      obtain ⟨w, heval⟩ := Program.evaluate_eq_ok.1 heval
      rw [Program.bindings_evaluateIn heval]
      exact pairwise_distinctBy.imp fun hne heq => hne (congrArg _ heq)
    refine ⟨key, _, hkey, hcolumn, hdirection, hcolumn ▸ hcarrier,
      Find.Compiled.ranks_shown hnodup hkey hbindings, fun hn => ?_, fun n hn => ?_⟩
    · rw [hrows, Find.Compiled.rows_eq, hlimit, hn]
    · rw [hrows, Find.Compiled.rows_eq, hlimit, hn]
  · -- the same bindings are found, for the limit is of no account before the rows are taken
    obtain ⟨warnings, hquery⟩ := e.query_of_parse hother
    have hcompiled : ({ q with limit := none } : Query).compile e.config.compiler
        (e.aliases { q with limit := none }) =
        { q.compile e.config.compiler (e.aliases q) with limit := none } :=
      Query.compile_with_limit e.config.compiler (e.aliases q) none
    rw [hcompiled, answer, heval] at hquery
    refine ⟨_, hquery, hcolumns.symm, ?_⟩
    rw [hrows, Find.Compiled.rows_eq, Find.Compiled.rows_eq, hlimit, hn]
    rfl

/-- The query for the post whose colour is last. -/
def lastColour : Query where
  entityType := "post"
  var := "p"
  clause := none
  returns := [⟨"p", []⟩]
  sortField := some ⟨⟨"p", ["color"]⟩, .desc⟩
  limit := some 1

/-- The post whose colour is last is the first of the posts in descending order of their colours,
each of which is there once, though it has two. -/
theorem rows_query_lastColour :
    ∃ o o', (ruledEngine.query "FIND post AS ?p RETURN ?p ORDER BY ?p.color DESC LIMIT 1").1 =
        .ok o ∧
      (ruledEngine.query "FIND post AS ?p RETURN ?p ORDER BY ?p.color DESC").1 = .ok o' ∧
      (o.rows.map o.record).Nodup ∧ o.rows = o'.rows.take 1 := by
  have hparse : Query.parse "FIND post AS ?p RETURN ?p ORDER BY ?p.color DESC LIMIT 1" =
      .ok lastColour := rfl
  have hplain : lastColour.IsPlain := by
    constructor <;> simp [lastColour, Query.conditions]
  have hvalid := (isValid_addRuleTexts (e := empty colouredEngine.config)
    (Program.isValid_empty _) (List.forall_mem_nil _) ["p(null, null, null)."]).1
  obtain ⟨w, -, hrecords⟩ := ruledEngine.exists_records_query hvalid
  obtain ⟨o, hquery, -⟩ := hrecords _ _ hparse hplain
  obtain ⟨q, c, a, hq, -, -, -, hnodup, -, hlimit⟩ := rows_query hquery
  obtain rfl : lastColour = q := Except.ok.inj (hparse.symm.trans hq)
  have hother : Query.parse "FIND post AS ?p RETURN ?p ORDER BY ?p.color DESC" =
      .ok { lastColour with limit := none } := rfl
  obtain ⟨o', hquery', -, hrows⟩ := hlimit 1 _ rfl hother
  exact ⟨o, o', hquery, hquery', hnodup, hrows⟩

end Engine

end Factbase
