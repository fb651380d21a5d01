import Factbase.Proofs.Canonical
import Factbase.Solution

/-! # Bindings up to canonical texts

Two bindings are the same for every purpose when they give values with the same canonical texts to
the same variables (`Binding.Same`). Matching a literal against a tuple extends a binding in one way
up to that (`Literal.extends_of_bind?`, `Literal.exists_bind?`), and the canonical text of a binding
tells bindings apart unless a variable holds an equals sign or a value the separator
(`Binding.same_of_canonical_eq`). -/

namespace Factbase

namespace Binding

variable {b c d : Binding} {name : String}

/-- The bindings give the same variables values with the same canonical texts. -/
def Same (b c : Binding) : Prop :=
  ∀ name, (b.get? name).map Atom.canonical = (c.get? name).map Atom.canonical

theorem Same.refl (b : Binding) : b.Same b := fun _ => rfl

theorem Same.symm (h : b.Same c) : c.Same b := fun name => (h name).symm

theorem Same.trans (h : b.Same c) (h' : c.Same d) : b.Same d :=
  fun name => (h name).trans (h' name)

/-- The canonical texts of the values. -/
def reading (b : Binding) : String → Option String :=
  fun name => (b.get? name).map Atom.canonical

theorem same_iff_reading_eq : b.Same c ↔ b.reading = c.reading := funext_iff.symm

/-- Terms have values with the same canonical texts under bindings that are the same. -/
theorem Same.resolve (h : b.Same c) (term : Term) :
    (b.resolve term).map Atom.canonical = (c.resolve term).map Atom.canonical := by
  cases term with
  | var name => exact h name
  | const a => rfl

/-- Lists of terms have values alike where each term has. -/
theorem mapM_resolve_congr {terms : List Term}
    (h : ∀ term ∈ terms,
      (b.resolve term).map Atom.canonical = (c.resolve term).map Atom.canonical) :
    (terms.mapM b.resolve).map (List.map Atom.canonical) =
      (terms.mapM c.resolve).map (List.map Atom.canonical) := by
  induction terms with
  | nil => rfl
  | cons term rest ih =>
    rw [List.forall_mem_cons] at h
    obtain ⟨hterm, hrest⟩ := h
    replace ih := ih hrest
    rw [List.mapM_cons, List.mapM_cons]
    -- the first term has a value on both sides or on neither, and so have the others
    cases hb : b.resolve term <;> cases hc : c.resolve term <;> rw [hb, hc] at hterm
    · rfl
    · simp at hterm
    · simp at hterm
    · cases hbs : rest.mapM b.resolve <;> cases hcs : rest.mapM c.resolve <;> rw [hbs, hcs] at ih
      · rfl
      · simp at ih
      · simp at ih
      · simp only [Option.map_some, Option.some.injEq] at hterm ih
        simp [hterm, ih]

/-- Lists of terms have values alike under bindings that are the same. -/
theorem Same.mapM_resolve (h : b.Same c) (terms : List Term) :
    (terms.mapM b.resolve).map (List.map Atom.canonical) =
      (terms.mapM c.resolve).map (List.map Atom.canonical) :=
  mapM_resolve_congr fun term _ => h.resolve term

/-- The variables of one binding that are among some have values with the same canonical texts under
the other. -/
def BelowOn (names : String → Prop) (b c : Binding) : Prop :=
  ∀ name value, names name → b.get? name = some value →
    (c.get? name).map Atom.canonical = some value.canonical

/-- The variables of one binding have values with the same canonical texts under the other. -/
def Below (b c : Binding) : Prop := b.BelowOn (fun _ => True) c

theorem Below.get? (h : b.Below c) {value : Atom} (hvalue : b.get? name = some value) :
    (c.get? name).map Atom.canonical = some value.canonical :=
  h name value trivial hvalue

theorem Same.below (h : b.Same c) : b.Below c := by
  intro name value _ hvalue
  rw [← h name, hvalue]
  rfl

/-- A term that has a value has one with its canonical text under a binding above. -/
theorem Below.resolve (h : b.Below c) {term : Term} {value : Atom}
    (hvalue : b.resolve term = some value) :
    (c.resolve term).map Atom.canonical = some value.canonical := by
  cases term with
  | var name => exact h.get? hvalue
  | const a => exact congrArg (Option.map Atom.canonical) hvalue

theorem Below.trans (h : b.Below c) (h' : c.Below d) : b.Below d := by
  intro name value _ hvalue
  have hc := h.get? hvalue
  cases hname : c.get? name with
  | none => simp [hname] at hc
  | some bound =>
    rw [hname] at hc
    rw [h'.get? hname, ← hc]
    rfl

/-- A variable that a binding below gives a value has one. -/
theorem Below.isSome (h : b.Below c) (hname : (b.get? name).isSome) : (c.get? name).isSome := by
  obtain ⟨value, hvalue⟩ := Option.isSome_iff_exists.1 hname
  rw [← Option.isSome_map (f := Atom.canonical), h.get? hvalue]
  rfl

/-- A binding below another is the same if it binds as many variables. -/
theorem Below.same (h : b.Below c) (hall : ∀ name, (c.get? name).isSome → (b.get? name).isSome) :
    b.Same c := by
  intro name
  cases hb : b.get? name with
  | some value => exact (h.get? hb).symm
  | none =>
    cases hc : c.get? name with
    | none => rfl
    | some value =>
      have hsome := hall name (by rw [hc]; rfl)
      rw [hb] at hsome
      exact absurd hsome (by decide)

/-- One binding keeps all values of another. -/
def Keeps (c b : Binding) : Prop := ∀ name value, b.get? name = some value →
  c.get? name = some value

theorem Keeps.below (h : c.Keeps b) : b.Below c := by
  intro name value _ hvalue
  rw [h name value hvalue]
  rfl

theorem Keeps.refl (b : Binding) : b.Keeps b := fun _ _ h => h

theorem Keeps.trans (h : d.Keeps c) (h' : c.Keeps b) : d.Keeps b :=
  fun name value hvalue => h name value (h' name value hvalue)

/-- Binding a variable without value keeps all values. -/
theorem keeps_insert (h : b.get? name = none) (value : Atom) : (b.insert name value).Keeps b := by
  intro other bound hbound
  rw [get?_insert, if_neg, hbound]
  rintro rfl
  rw [h] at hbound
  exact absurd hbound (by simp)

/-- Binding a variable binds no other one. -/
theorem isSome_or_eq_of_insert {value : Atom} {other : String}
    (h : ((b.insert name value).get? other).isSome) : (b.get? other).isSome ∨ other = name := by
  rw [get?_insert] at h
  split at h
  · next heq => exact .inr heq
  · exact .inl h

/-- What unification gives: the binding itself where the variable has the value, else one more
entry. -/
theorem unify?_eq_some {value : Atom} :
    b.unify? name value = some c ↔
      (∃ bound, b.get? name = some bound ∧ bound.canonical = value.canonical ∧ c = b) ∨
        b.get? name = none ∧ c = b.insert name value := by
  rw [unify?_def]
  cases hbound : b.get? name with
  | some bound =>
    by_cases heq : bound.canonical = value.canonical
    · simp [heq, eq_comm]
    · simp [heq]
  | none => simp [eq_comm]

/-- Unification keeps all values and gives the variable one with the canonical text. -/
theorem of_unify? {value : Atom} (h : b.unify? name value = some c) :
    c.Keeps b ∧ (c.get? name).map Atom.canonical = some value.canonical ∧
      ∀ other, (c.get? other).isSome → (b.get? other).isSome ∨ other = name := by
  rcases unify?_eq_some.1 h with ⟨bound, hbound, heq, rfl⟩ | ⟨hnone, rfl⟩
  · exact ⟨.refl c, by rw [hbound, Option.map_some, heq], fun other hother => .inl hother⟩
  · exact ⟨keeps_insert hnone value, by rw [get?_insert, if_pos rfl]; rfl,
      fun other => isSome_or_eq_of_insert⟩

/-- Unification succeeds below a binding in which the variable has the canonical text. -/
theorem BelowOn.exists_unify? {names : String → Prop} {value : Atom} (h : b.BelowOn names d)
    (hname : names name) (hvalue : (d.get? name).map Atom.canonical = some value.canonical) :
    ∃ c, b.unify? name value = some c ∧ c.BelowOn names d := by
  cases hbound : b.get? name with
  | some bound =>
    have heq : bound.canonical = value.canonical :=
      Option.some.inj ((h name bound hname hbound).symm.trans hvalue)
    exact ⟨b, unify?_eq_some.2 (.inl ⟨bound, hbound, heq, rfl⟩), h⟩
  | none =>
    refine ⟨b.insert name value, unify?_eq_some.2 (.inr ⟨hbound, rfl⟩), ?_⟩
    intro other bound hnames hother
    rw [get?_insert] at hother
    split at hother
    · next heq =>
      rw [heq, hvalue, Option.some.inj hother]
    · exact h other bound hnames hother

/-- A binding of variables without equals sign to values without the separator. -/
def IsLegible (b : Binding) : Prop :=
  ∀ e ∈ b.entries, '=' ∉ e.1.toList ∧ e.2.Lacks (Char.ofNat 0x1E)

theorem isLegible_empty : empty.IsLegible := by simp [IsLegible, empty]

/-- The characters of the canonical text of a binding, entry after entry. -/
theorem toList_canonical (b : Binding) :
    b.canonical.toList = b.entries.flatMap fun e =>
      e.1.toList ++ '=' :: (e.2.canonical.toList ++ [Char.ofNat 0x1E]) := by
  rw [canonical, String.toList_join, List.flatMap_map]
  congr 1
  funext e
  simp only [String.toList_append, List.append_assoc, recordSeparator]
  rfl

/-- Entries that are written alike have the same variables with the same canonical texts. -/
theorem entries_of_flatMap_eq {es fs : List (String × Atom)}
    (hes : ∀ e ∈ es, '=' ∉ e.1.toList ∧ e.2.Lacks (Char.ofNat 0x1E))
    (hfs : ∀ e ∈ fs, '=' ∉ e.1.toList ∧ e.2.Lacks (Char.ofNat 0x1E))
    (h : (es.flatMap fun e => e.1.toList ++ '=' :: (e.2.canonical.toList ++ [Char.ofNat 0x1E])) =
      fs.flatMap fun e => e.1.toList ++ '=' :: (e.2.canonical.toList ++ [Char.ofNat 0x1E])) :
    es.map (fun e => (e.1, e.2.canonical)) = fs.map fun e => (e.1, e.2.canonical) := by
  induction es generalizing fs with
  | nil =>
    cases fs with
    | nil => rfl
    | cons f fs => simp at h
  | cons e es ih =>
    cases fs with
    | nil => simp at h
    | cons f fs =>
      rw [List.forall_mem_cons] at hes hfs
      simp only [List.flatMap_cons, List.append_assoc, List.cons_append, List.nil_append] at h
      -- the name ends at the equals sign, the value at the separator
      obtain ⟨hname, hrest⟩ := append_mark_inj hes.1.1 hfs.1.1 h
      obtain ⟨hvalue, htail⟩ := append_mark_inj (Atom.not_mem_canonical (by decide) hes.1.2)
        (Atom.not_mem_canonical (by decide) hfs.1.2) hrest
      rw [List.map_cons, List.map_cons, ih hes.2 hfs.2 htail, String.toList_injective hname,
        String.toList_injective hvalue]

/-- Looking up a name goes together with taking canonical texts. -/
theorem lookup_map_canonical (name : String) (entries : List (String × Atom)) :
    (entries.map fun e => (e.1, e.2.canonical)).lookup name =
      (entries.lookup name).map Atom.canonical := by
  induction entries with
  | nil => rfl
  | cons e rest ih =>
    obtain ⟨key, value⟩ := e
    rw [List.map_cons, lookup_cons_eq_ite, lookup_cons_eq_ite, ih]
    split <;> rfl

/-- The canonical text tells legible bindings apart. -/
theorem same_of_canonical_eq (hb : b.IsLegible) (hc : c.IsLegible)
    (h : b.canonical = c.canonical) : b.Same c := by
  have hchars := congrArg String.toList h
  rw [toList_canonical, toList_canonical] at hchars
  intro name
  rw [get?, get?, ← lookup_map_canonical, ← lookup_map_canonical,
    entries_of_flatMap_eq hb hc hchars]

/-- Bindings that are the same have one canonical text. -/
theorem Same.canonical_eq (h : b.Same c) : b.canonical = c.canonical := by
  have hordered : ∀ d : Binding, IsOrdered (d.entries.map fun e => (e.1, e.2.canonical)) :=
    fun d => List.pairwise_map.2 d.isOrdered
  have hentries := (hordered b).ext (hordered c) fun name => by
    rw [lookup_map_canonical, lookup_map_canonical]
    exact h name
  have hcanonical : ∀ d : Binding, d.canonical = String.join
      ((d.entries.map fun e => (e.1, e.2.canonical)).map fun e =>
        e.1 ++ "=" ++ e.2 ++ recordSeparator) := by
    intro d
    rw [List.map_map]
    rfl
  rw [hcanonical, hcanonical, hentries]

/-- Restricted bindings are the same if the bindings are. -/
theorem Same.restrict (h : b.Same c) (names : List String) :
    (b.restrict names).Same (c.restrict names) := by
  intro name
  rw [get?_restrict, get?_restrict]
  split
  · exact h name
  · rfl

/-- A restricted binding is legible if the binding is. -/
theorem IsLegible.restrict (h : b.IsLegible) (names : List String) :
    (b.restrict names).IsLegible :=
  fun e he => h e (List.mem_of_mem_filter he)

end Binding

namespace Literal

/-- The values of terms are those of some of them, and each of them has one. -/
theorem mem_of_mapM_resolve {b : Binding} {terms : List Term} {values : List Atom}
    (h : terms.mapM b.resolve = some values) :
    (∀ a ∈ values, ∃ term ∈ terms, b.resolve term = some a) ∧
      ∀ term ∈ terms, (b.resolve term).isSome := by
  induction terms generalizing values with
  | nil =>
    obtain rfl : [] = values := by simpa using h
    simp
  | cons term rest ih =>
    simp only [List.mapM_cons, Option.bind_eq_bind, Option.bind_eq_some_iff, Option.pure_def,
      Option.some.injEq] at h
    obtain ⟨value, hvalue, others, hothers, rfl⟩ := h
    obtain ⟨hvalues, hterms⟩ := ih hothers
    constructor
    · intro a ha
      rcases List.mem_cons.1 ha with rfl | ha
      · exact ⟨term, List.mem_cons_self, hvalue⟩
      · obtain ⟨term', hterm', hvalue'⟩ := hvalues a ha
        exact ⟨term', List.mem_cons_of_mem _ hterm', hvalue'⟩
    · exact List.forall_mem_cons.2 ⟨by rw [hvalue]; rfl, hterms⟩

/-- Under a binding the terms have values with the canonical texts of the columns of a tuple. -/
def Agrees (b : Binding) (terms : List Term) (t : Tuple) : Prop :=
  terms.map (fun term => (b.resolve term).map Atom.canonical) =
    t.map fun value => some value.canonical

/-- A binding extends another by a tuple that a literal matches: it keeps all values, it gives the
terms of the literal the values of the columns, and it binds no other variables. -/
structure Extends (terms : List Term) (b : Binding) (t : Tuple) (c : Binding) : Prop where
  agrees : Agrees c terms t
  keeps : c.Keeps b
  only : ∀ name, (c.get? name).isSome → (b.get? name).isSome ∨ Term.var name ∈ terms

section Bind

variable {b b₀ c d : Binding} {terms : List Term} {t : Tuple}

/-- A term with the canonical text of the first column, before others that agree. -/
theorem agrees_cons {term : Term} {value : Atom} :
    Agrees b (term :: terms) (value :: t) ↔
      (b.resolve term).map Atom.canonical = some value.canonical ∧ Agrees b terms t := by
  simp only [Agrees, List.map_cons, List.cons.injEq]

/-- Terms that agree with a tuple agree with it under bindings above. -/
theorem Agrees.below (h : Agrees b terms t) (hbelow : b.Below c) : Agrees c terms t := by
  induction terms generalizing t with
  | nil => exact h
  | cons term rest ih =>
    cases t with
    | nil => simp [Agrees] at h
    | cons value t =>
      rw [agrees_cons] at h ⊢
      refine ⟨?_, ih h.2⟩
      cases hvalue : b.resolve term with
      | none => simp [hvalue] at h
      | some v => rw [hbelow.resolve hvalue, ← h.1, hvalue, Option.map_some]

/-- Terms that agree with a tuple have values. -/
theorem Agrees.isSome (h : Agrees b terms t) {term : Term} (hterm : term ∈ terms) :
    (b.resolve term).isSome := by
  have hmem := List.mem_map_of_mem (f := fun term => (b.resolve term).map Atom.canonical) hterm
  rw [h] at hmem
  obtain ⟨value, -, hvalue⟩ := List.mem_map.1 hmem
  rw [← Option.isSome_map (f := Atom.canonical), ← hvalue]
  rfl

/-- Binding the terms of a literal to a tuple that fits extends the binding. -/
theorem extends_of_bind? (hfits : TuplePattern.fits (terms.map b₀.resolve) t = true)
    (h : bind? b terms t = some c) : Extends terms b t c := by
  induction terms generalizing b t with
  | nil =>
    cases t with
    | nil =>
      obtain rfl : b = c := by simpa [bind?] using h
      exact ⟨rfl, .refl b, fun _ hname => .inl hname⟩
    | cons value t => simp [TuplePattern.fits] at hfits
  | cons term rest ih =>
    cases t with
    | nil => cases hterm : b₀.resolve term <;> simp [TuplePattern.fits, hterm] at hfits
    | cons value t =>
      -- whether the first column is tested or not, the others are
      have hrest : TuplePattern.fits (rest.map b₀.resolve) t = true := by
        rw [List.map_cons] at hfits
        cases hterm : b₀.resolve term with
        | none => simpa [TuplePattern.fits, hterm] using hfits
        | some wanted =>
          rw [hterm, TuplePattern.fits, Bool.and_eq_true] at hfits
          exact hfits.2
      cases term with
      | var name =>
        obtain ⟨d, hunify, hbind⟩ := Option.bind_eq_some_iff.1 h
        obtain ⟨hkeeps, hvalue, honly⟩ := Binding.of_unify? hunify
        obtain ⟨hagrees, hkeeps', honly'⟩ := ih hrest hbind
        refine ⟨agrees_cons.2 ⟨?_, hagrees⟩, hkeeps'.trans hkeeps, ?_⟩
        · cases hname : d.get? name with
          | none => simp [hname] at hvalue
          | some v =>
            rw [Binding.resolve, hkeeps' name v hname, ← hname, hvalue]
        · intro other hother
          rcases honly' other hother with hother | hother
          · rcases honly other hother with hother | rfl
            · exact .inl hother
            · exact .inr List.mem_cons_self
          · exact .inr (List.mem_cons_of_mem _ hother)
      | const a =>
        obtain ⟨hagrees, hkeeps, honly⟩ := ih hrest h
        have hvalue : a.canonical = value.canonical := by
          rw [List.map_cons, Binding.resolve, TuplePattern.fits, Bool.and_eq_true,
            beq_iff_eq] at hfits
          exact hfits.1.symm
        refine ⟨agrees_cons.2 ⟨congrArg some hvalue, hagrees⟩, hkeeps, ?_⟩
        exact fun other hother => (honly other hother).imp_right (List.mem_cons_of_mem _)

/-- A tuple with which the terms agree fits the pattern of a binding below. -/
theorem Agrees.fits {names : String → Prop} (h : Agrees d terms t)
    (hnames : ∀ name, Term.var name ∈ terms → names name) (hbelow : b.BelowOn names d) :
    TuplePattern.fits (terms.map b.resolve) t = true := by
  induction terms generalizing t with
  | nil =>
    obtain rfl : t = [] := List.map_eq_nil_iff.1 h.symm
    rfl
  | cons term rest ih =>
    cases t with
    | nil => simp [Agrees] at h
    | cons value t =>
      rw [agrees_cons] at h
      have hrest := ih h.2 fun name hname => hnames name (List.mem_cons_of_mem _ hname)
      rw [List.map_cons]
      cases hterm : b.resolve term with
      | none => exact hrest
      | some wanted =>
        rw [TuplePattern.fits, Bool.and_eq_true, beq_iff_eq]
        refine ⟨?_, hrest⟩
        cases term with
        | var name =>
          have hvalue := hbelow name wanted (hnames name List.mem_cons_self) hterm
          exact Option.some.inj (h.1.symm.trans hvalue)
        | const a =>
          obtain rfl : a = wanted := Option.some.inj hterm
          exact Option.some.inj h.1.symm

/-- Terms that agree with a tuple can be bound to it from a binding below. -/
theorem Agrees.exists_bind? {names : String → Prop} (h : Agrees d terms t)
    (hnames : ∀ name, Term.var name ∈ terms → names name) (hbelow : b.BelowOn names d) :
    ∃ c, bind? b terms t = some c ∧ c.BelowOn names d := by
  induction terms generalizing b t with
  | nil => exact ⟨b, by cases t <;> rfl, hbelow⟩
  | cons term rest ih =>
    cases t with
    | nil => simp [Agrees] at h
    | cons value t =>
      rw [agrees_cons] at h
      have hrest : ∀ name, Term.var name ∈ rest → names name := fun name hname =>
        hnames name (List.mem_cons_of_mem _ hname)
      cases term with
      | var name =>
        obtain ⟨c, hunify, hc⟩ := hbelow.exists_unify? (hnames name List.mem_cons_self) h.1
        obtain ⟨c', hbind, hc'⟩ := ih h.2 hrest hc
        exact ⟨c', by rw [bind?, hunify]; exact hbind, hc'⟩
      | const a => exact ih h.2 hrest hbelow

/-- Matching from a binding that is the same gives an extension that is the same. -/
theorem Extends.exists_bind? {t' : Tuple} (h : Extends terms b t d) (hsame : b.Same b₀)
    (ht : t.map Atom.canonical = t'.map Atom.canonical) :
    ∃ c, TuplePattern.fits (terms.map b₀.resolve) t' = true ∧ bind? b₀ terms t' = some c ∧
      Extends terms b₀ t' c ∧ d.Same c := by
  have hagrees : Agrees d terms t' := by
    have hsome : ∀ t : Tuple, (t.map fun value => some value.canonical) =
        (t.map Atom.canonical).map some := by
      intro t
      rw [List.map_map]
      rfl
    rw [Agrees, hsome, ← ht, ← hsome]
    exact h.agrees
  have hbelow : b₀.Below d := by
    intro name value _ hvalue
    have hb := hsame name
    rw [hvalue] at hb
    cases hname : b.get? name with
    | none => simp [hname] at hb
    | some v => rw [h.keeps name v hname, ← hname, hb]; rfl
  obtain ⟨c, hbind, hc⟩ := hagrees.exists_bind? (fun _ _ => trivial) hbelow
  have hfits := hagrees.fits (fun _ _ => trivial) hbelow
  have hextends := extends_of_bind? hfits hbind
  refine ⟨c, hfits, hbind, hextends, (Binding.Below.same hc fun name hname => ?_).symm⟩
  rcases h.only name hname with hb | hmem
  · -- a variable that was bound before
    have hb₀ : (b₀.get? name).isSome := by
      have heq := congrArg Option.isSome (hsame name)
      rw [Option.isSome_map, Option.isSome_map] at heq
      rwa [← heq]
    obtain ⟨v, hv⟩ := Option.isSome_iff_exists.1 hb₀
    rw [hextends.keeps name v hv]
    rfl
  · -- a variable of the literal
    exact hextends.agrees.isSome hmem

/-- What holds of all entries of a binding holds of those that matching adds. -/
theorem forall_entries_of_bind? {P : String × Atom → Prop} (hb : ∀ e ∈ b.entries, P e)
    (hnew : ∀ name value, Term.var name ∈ terms → value ∈ t → P (name, value))
    (h : bind? b terms t = some c) : ∀ e ∈ c.entries, P e := by
  induction terms generalizing b t with
  | nil =>
    obtain rfl : b = c := by simpa [bind?] using h
    exact hb
  | cons term rest ih =>
    cases t with
    | nil =>
      obtain rfl : b = c := by cases term <;> simpa [bind?] using h
      exact hb
    | cons value t =>
      have hrest : ∀ name v, Term.var name ∈ rest → v ∈ t → P (name, v) := fun name v hname hv =>
        hnew name v (List.mem_cons_of_mem _ hname) (List.mem_cons_of_mem _ hv)
      cases term with
      | const a => exact ih hb hrest h
      | var name =>
        obtain ⟨d, hunify, hbind⟩ := Option.bind_eq_some_iff.1 h
        refine ih ?_ hrest hbind
        rcases Binding.unify?_eq_some.1 hunify with ⟨-, -, -, rfl⟩ | ⟨-, rfl⟩
        · exact hb
        · intro e he
          rcases mem_of_mem_putEntry he with rfl | he
          · exact hnew name value List.mem_cons_self List.mem_cons_self
          · exact hb e he

end Bind

end Literal

end Factbase
