import Factbase.Engine
import Factbase.Proofs.CompiledQueries
import Factbase.Proofs.DistinctAnswers

/-! # The rows that a query text returns

The rows of an output are read as maps from columns to canonical texts (`QueryOutput.records`). On
the way from the solutions of the goals to the rows, solutions are restricted to the variables of
the answer, repeated ones are dropped twice, and the rest is sorted; none of that changes the set of
these maps, as long as answers with one canonical text are the same (`Find.Compiled.TellsApart`).
So a query returns the maps that describe the entities which it finds
(`Engine.exists_records_query`). -/

namespace Factbase

/-- The rows as maps from columns to the canonical texts of the cells. -/
def QueryOutput.records (o : QueryOutput) : Set (String → Option String) :=
  {m | ∃ row ∈ o.rows, m = fun column => ((o.columns.zip row).lookup column).map Atom.canonical}

/-- The canonical texts of the values in a column. -/
def QueryOutput.values (o : QueryOutput) (column : String) : Set String :=
  {text | ∃ v ∈ o.column column, v.canonical = text}

/-- The values in a column are those that the rows map it to. -/
theorem QueryOutput.mem_values_iff {o : QueryOutput} {column text : String} :
    text ∈ o.values column ↔ ∃ m ∈ o.records, m column = some text := by
  constructor
  · rintro ⟨v, hv, rfl⟩
    obtain ⟨row, hrow, hlookup⟩ := List.mem_filterMap.1 hv
    exact ⟨_, ⟨row, hrow, rfl⟩, congrArg (Option.map Atom.canonical) hlookup⟩
  · rintro ⟨m, ⟨row, hrow, rfl⟩, htext⟩
    obtain ⟨v, hv, rfl⟩ := Option.map_eq_some_iff.1 htext
    exact ⟨v, List.mem_filterMap.2 ⟨row, hrow, hv⟩, rfl⟩

/-- Looking a name up among names with their values goes together with changing the values. -/
theorem lookup_zip_map {α β : Type} (f : α → β) (names : List String) (values : List α)
    (name : String) :
    (names.zip (values.map f)).lookup name = ((names.zip values).lookup name).map f := by
  induction names generalizing values with
  | nil => rfl
  | cons first rest ih =>
    cases values with
    | nil => rfl
    | cons value values =>
      simp only [List.map_cons, List.zip_cons_cons, lookup_cons_eq_ite, ih]
      split <;> rfl

namespace Binding

variable {b c : Binding} {name : String} {names : List String}

/-- An answer keeps the values of its variables. -/
theorem get?_answer (h : name ∈ names) : (b.answer names).get? name = b.get? name := by
  unfold answer
  split
  · rfl
  · rw [get?_restrict, if_pos h]

/-- The answer of a single variable is its entry. -/
theorem entries_answer_of_single {var : String} {x : Atom}
    (hnames : ∀ name, name ∈ names ↔ name = var) (hx : b.get? var = some x) :
    (b.answer names).entries = [(var, x)] := by
  have hmem := (hnames var).2 rfl
  refine (b.answer names).isOrdered.ext (List.pairwise_singleton _ _) fun other => ?_
  rw [lookup_cons_eq_ite]
  split
  · next heq => rw [heq, ← hx, ← get?_answer hmem, get?]
  · next hne =>
    rw [answer, if_neg (by simpa using List.ne_nil_of_mem hmem)]
    exact (b.get?_restrict names other).trans (if_neg fun h => hne ((hnames other).1 h))

/-- Bindings of one variable have one canonical text where their values do. -/
theorem canonical_eq_iff_of_single {var : String} {x y : Atom} (hb : b.entries = [(var, x)])
    (hc : c.entries = [(var, y)]) : b.canonical = c.canonical ↔ x.canonical = y.canonical := by
  rw [← String.toList_inj, toList_canonical, toList_canonical, hb, hc]
  simp [String.toList_inj]

/-- Answers of a single variable with one canonical text are the same. -/
theorem same_answer_of_single {var : String} {x y : Atom}
    (hnames : ∀ name, name ∈ names ↔ name = var) (hx : b.get? var = some x)
    (hy : c.get? var = some y) (h : (b.answer names).canonical = (c.answer names).canonical) :
    (b.answer names).Same (c.answer names) := by
  have hb := entries_answer_of_single hnames hx
  have hc := entries_answer_of_single hnames hy
  have hvalue := (canonical_eq_iff_of_single hb hc).1 h
  intro other
  rw [get?, get?, hb, hc, lookup_cons_eq_ite, lookup_cons_eq_ite]
  split
  · exact congrArg some hvalue
  · rfl

end Binding

namespace Find.Compiled

variable {c : Compiled} {b d : Binding} {bindings solutions : List Binding}

/-- What the columns carry in a binding, as a map to canonical texts. -/
def record (c : Compiled) (b : Binding) : String → Option String :=
  fun column => (c.projection.lookup column).map fun carrier => (b.cell carrier).canonical

/-- The record of a binding is its row, column by column. -/
theorem record_eq (c : Compiled) (b : Binding) :
    c.record b = fun column =>
      (((c.projection.map (·.1)).zip (c.row b)).lookup column).map Atom.canonical := by
  have hrow : c.row b = (c.projection.map (·.2)).map b.cell := by simp [row]
  funext column
  rw [hrow, lookup_zip_map, Option.map_map, record, ← List.zip_of_prod rfl rfl]
  rfl

/-- Bindings that are the same have the same record. -/
theorem record_congr (h : b.Same d) : c.record b = c.record d := by
  funext column
  unfold record
  congr 1
  funext carrier
  have hsame := h carrier
  unfold Binding.cell
  cases hb : b.get? carrier <;> cases hd : d.get? carrier <;> simp_all

/-- Sorting and dropping repeated rows keep the records of the bindings. -/
theorem exists_row_iff (hlimit : c.limit = none) {m : String → Option String} :
    (∃ row ∈ c.rows bindings,
        m = fun column => (((c.projection.map (·.1)).zip row).lookup column).map Atom.canonical) ↔
      ∃ b ∈ bindings, m = c.record b := by
  have hsorted : ∀ b, b ∈ c.sorted bindings ↔ b ∈ bindings := by
    intro b
    unfold sorted
    split
    · exact List.mem_mergeSort
    · rfl
  have hrows : c.rows bindings = distinctBy (fun row : List Atom => row.map Atom.canonical)
      ((c.sorted bindings).map c.row) := by
    unfold rows
    rw [hlimit]
  rw [hrows]
  constructor
  · rintro ⟨row, hrow, rfl⟩
    obtain ⟨b, hb, rfl⟩ := List.mem_map.1 (mem_of_mem_distinctBy hrow)
    exact ⟨b, (hsorted b).1 hb, (c.record_eq b).symm⟩
  · rintro ⟨b, hb, rfl⟩
    obtain ⟨row, hrow, hsame⟩ := exists_mem_distinctBy
      (fun row : List Atom => row.map Atom.canonical)
      (List.mem_map_of_mem (f := c.row) ((hsorted b).2 hb))
    refine ⟨row, hrow, ?_⟩
    rw [record_eq]
    funext column
    rw [← lookup_zip_map, ← lookup_zip_map, hsame]

/-- Answers of the solutions with one canonical text are the same. -/
def TellsApart (c : Compiled) (solutions : List Binding) : Prop :=
  ∀ b ∈ solutions, ∀ d ∈ solutions,
    (b.answer c.query.answer).canonical = (d.answer c.query.answer).canonical →
      (b.answer c.query.answer).Same (d.answer c.query.answer)

/-- The answers that are kept have the records of all solutions. -/
theorem exists_answer_iff (htells : c.TellsApart solutions)
    (hcarriers : ∀ e ∈ c.projection, e.2 ∈ c.query.answer) {m : String → Option String} :
    (∃ b ∈ distinctBy Binding.canonical (solutions.map (·.answer c.query.answer)),
        m = c.record b) ↔
      ∃ b ∈ solutions, m = c.record b := by
  -- the columns are carried by variables of the answer
  have hanswer : ∀ b : Binding, c.record (b.answer c.query.answer) = c.record b := by
    intro b
    funext column
    unfold record
    cases hcarrier : c.projection.lookup column with
    | none => rfl
    | some carrier =>
      have hmem := hcarriers (column, carrier) (mem_of_lookup_eq_some hcarrier)
      simp [Binding.cell, Binding.get?_answer hmem]
  constructor
  · rintro ⟨b, hb, rfl⟩
    obtain ⟨d, hd, rfl⟩ := List.mem_map.1 (mem_of_mem_distinctBy hb)
    exact ⟨d, hd, hanswer d⟩
  · rintro ⟨b, hb, rfl⟩
    obtain ⟨d, hd, htext⟩ := exists_mem_distinctBy Binding.canonical
      (List.mem_map_of_mem (f := (·.answer c.query.answer)) hb)
    obtain ⟨b', hb', rfl⟩ := List.mem_map.1 (mem_of_mem_distinctBy hd)
    refine ⟨_, hd, ?_⟩
    rw [record_congr (htells b' hb' b hb htext), hanswer]

end Find.Compiled

namespace Find.Query

open Compile (outputFields lookedUp? columns_compile)

/-- A map from columns to canonical texts describes an entity: each column has one of the values
that the entity shows in its field, and there is nothing else in it. -/
structure DescribesAt (w : WorkingSet) (aliases : Aliases) (q : Query) (x : Atom)
    (m : String → Option String) : Prop where
  column : ∀ f ∈ outputFields q,
    ∃ v, w.Shows x (lookedUp? aliases f) v ∧ m f.display = some v.canonical
  other : ∀ name, (∀ f ∈ outputFields q, f.display ≠ name) → m name = none

variable (w : WorkingSet) (options : CompilerOptions) (aliases : Aliases) {q : Query}
  {m : String → Option String}

/-- Fields of the query that are written alike are looked up alike. -/
theorem lookedUp?_eq_of_display_eq {f g : Field} (hvar : f.var = g.var)
    (h : f.display = g.display) : lookedUp? aliases f = lookedUp? aliases g := by
  rw [lookedUp?, lookedUp?, Field.attr?_eq_of_display_eq hvar h]

/-- Where every field of the columns has a value of some kind, there is one for every column. -/
theorem exists_value {P : Option String → String → Atom → Prop} (hplain : q.IsPlain)
    (h : ∀ f ∈ outputFields q, ∃ v, P (lookedUp? aliases f) f.display v) :
    ∃ value : String → Atom,
      ∀ f ∈ outputFields q, P (lookedUp? aliases f) f.display (value f.display) := by
  have hname : ∀ name, ∃ v, ∀ f ∈ outputFields q, f.display = name →
      P (lookedUp? aliases f) name v := by
    intro name
    by_cases hcolumn : ∃ f ∈ outputFields q, f.display = name
    · obtain ⟨f, hf, rfl⟩ := hcolumn
      obtain ⟨v, hv⟩ := h f hf
      refine ⟨v, fun g hg hdisplay => ?_⟩
      have hvar : g.var = f.var := (Compile.var_outputFields hplain g hg).trans
        (Compile.var_outputFields hplain f hf).symm
      rwa [lookedUp?_eq_of_display_eq aliases hvar hdisplay]
    · exact ⟨.null, fun f hf hdisplay => absurd ⟨f, hf, hdisplay⟩ hcolumn⟩
  choose value hvalue using hname
  exact ⟨value, fun f hf => hvalue f.display f hf rfl⟩

/-- Some map describes an entity that shows a value in each field of the columns. -/
theorem exists_describesAt {x : Atom} (hplain : q.IsPlain)
    (h : ∀ f ∈ outputFields q, ∃ v, w.Shows x (lookedUp? aliases f) v) :
    ∃ m, q.DescribesAt w aliases x m := by
  classical
  obtain ⟨value, hvalue⟩ := exists_value (P := fun look _ v => w.Shows x look v) aliases hplain h
  refine ⟨fun name => if ∃ f ∈ outputFields q, f.display = name then
    some (value name).canonical else none, fun f hf => ⟨_, hvalue f hf, if_pos ⟨f, hf, rfl⟩⟩,
    fun name hname => if_neg ?_⟩
  rintro ⟨f, hf, hdisplay⟩
  exact hname f hf hdisplay

/-- The records of the solutions of a query are the maps that describe the entities which it
finds. -/
theorem exists_solution_iff (hvar : '$' ∉ q.var.toList) (hplain : q.IsPlain) :
    (∃ b ∈ Goal.solutionsEach w (q.compile options aliases).query.goals [.empty],
        m = (q.compile options aliases).record b) ↔
      ∃ x, q.FindsAt w options.orMode aliases x ∧ q.DescribesAt w aliases x m := by
  obtain ⟨hdisplays, -⟩ := columns_compile options aliases hvar hplain
  constructor
  · rintro ⟨b, hb, rfl⟩
    obtain ⟨x, hx, -, hbears⟩ := sound_compile w options aliases hvar hplain hb
    refine ⟨x, hx, fun f hf => ?_, fun name hname => ?_⟩
    · obtain ⟨carrier, hcarrier⟩ :=
        Option.isSome_iff_exists.1 ((hdisplays f.display).2 ⟨f, hf, rfl⟩)
      obtain ⟨g, v, hg, hdisplay, hv, hshows⟩ := hbears _ (mem_of_lookup_eq_some hcarrier)
      rw [lookedUp?_eq_of_display_eq aliases
        (hg.trans (Compile.var_outputFields hplain f hf).symm) hdisplay] at hshows
      exact ⟨v, hshows, by simp [Compiled.record, hcarrier, Binding.cell, hv]⟩
    · have hnone : (q.compile options aliases).projection.lookup name = none := by
        rw [← Option.not_isSome_iff_eq_none, hdisplays]
        exact fun ⟨f, hf, hdisplay⟩ => hname f hf hdisplay
      simp [Compiled.record, hnone]
  · rintro ⟨x, hx, hm⟩
    obtain ⟨value, hvalue⟩ := exists_value
      (P := fun look name v => w.Shows x look v ∧ m name = some v.canonical) aliases hplain
      hm.column
    obtain ⟨b, hb, -, hgives⟩ := complete_compile w options aliases hvar hplain hx
      fun f hf => (hvalue f hf).1
    refine ⟨b, hb, funext fun name => ?_⟩
    cases hcarrier : (q.compile options aliases).projection.lookup name with
    | none =>
      rw [hm.other name fun f hf hdisplay => ?_]
      · simp [Compiled.record, hcarrier]
      · have hsome := (hdisplays name).2 ⟨f, hf, hdisplay⟩
        simp [hcarrier] at hsome
    | some carrier =>
      obtain ⟨f, hf, rfl⟩ := (hdisplays name).1 (by rw [hcarrier]; rfl)
      rw [(hvalue f hf).2]
      simp [Compiled.record, hcarrier, Binding.cell, hgives _ (mem_of_lookup_eq_some hcarrier)]

/-- The columns of a query are carried by variables of its answer. -/
theorem carriers_compile :
    ∀ e ∈ (q.compile options aliases).projection,
      e.2 ∈ (q.compile options aliases).query.answer := by
  rw [Compile.compile_eq]
  exact fun e he => List.mem_append_left _ (List.mem_map_of_mem he)

/-- A query whose columns are its variable alone has that as the only variable of its answer. -/
theorem mem_answer_compile_iff (hvar : '$' ∉ q.var.toList) (hplain : q.IsPlain)
    (hcolumns : ∀ f ∈ outputFields q, f.attr? = none) (hsort : q.sortField = none) (name : String) :
    name ∈ (q.compile options aliases).query.answer ↔ name = q.var := by
  obtain ⟨hdisplays, hcarriers⟩ := columns_compile options aliases hvar hplain
  have hanswer : (q.compile options aliases).query.answer =
      (q.compile options aliases).projection.map (·.2) := by
    obtain ⟨entityType, var, clause, returns, sortField, limit⟩ := q
    obtain rfl : sortField = none := hsort
    cases clause <;> exact List.append_nil _
  have hall : ∀ e ∈ (q.compile options aliases).projection, e.2 = q.var := by
    intro e he
    obtain ⟨f, hf, -, hcarrier⟩ := hcarriers e he
    exact hcarrier (by rw [lookedUp?, hcolumns f hf]; rfl)
  rw [hanswer, List.mem_map]
  constructor
  · rintro ⟨e, he, rfl⟩
    exact hall e he
  · rintro rfl
    -- there is a field to return
    obtain ⟨f, hf⟩ : ∃ f, f ∈ outputFields q := by
      cases hreturns : q.returns with
      | nil => exact ⟨_, Compile.mem_outputFields.2 (.inl (.inr ⟨hreturns, rfl⟩))⟩
      | cons f rest => exact ⟨f, Compile.mem_outputFields.2 (.inl (.inl (by simp [hreturns])))⟩
    obtain ⟨carrier, hcarrier⟩ := Option.isSome_iff_exists.1 ((hdisplays f.display).2 ⟨f, hf, rfl⟩)
    have hmem := mem_of_lookup_eq_some hcarrier
    exact ⟨_, hmem, hall _ hmem⟩

end Find.Query

end Factbase
