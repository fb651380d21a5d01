import Mathlib.Data.Finset.Card
import Mathlib.Data.List.Chain
import Factbase.Proofs.Dependency

/-! # Breadth-first search finds shortest paths

A path goes in steps from a first name to a last one (`IsPath`), in a graph from each relation to
one that it depends on. The paths in the queue of a search lead to what they end at on a shortest
way, the short ones stand before the long ones, and what has left the queue leads to relations that
were seen only (`DependencyGraph.IsSearch`); one step of the search keeps this
(`DependencyGraph.IsSearch.step`). So the first path that is taken from the queue and ends at the
target is a shortest one (`DependencyGraph.path?_eq_some`), and there is none at all when the queue
runs empty (`DependencyGraph.path?_eq_none_iff`).

The same path is found when the queue holds relations only and each relation that is found points to
the one from which it was: the pointers lead back along it (`DependencyGraph.pathByParents?_eq`). -/

namespace Factbase

/-- Names, from a first to a last one, with a step from each to the next. -/
structure IsPath (step : String → String → Prop) (first last : String) (path : List String) :
    Prop where
  head?_eq : path.head? = some first
  getLast?_eq : path.getLast? = some last
  isChain : path.IsChain step

namespace IsPath

variable {step : String → String → Prop} {a b c : String} {path rest seen : List String}

theorem singleton (step : String → String → Prop) (a : String) : IsPath step a a [a] :=
  ⟨rfl, rfl, .singleton a⟩

/-- A path with a step in front. -/
theorem cons (hab : step a b) (h : IsPath step b c path) : IsPath step a c (a :: path) where
  head?_eq := rfl
  getLast?_eq := by simp [List.getLast?_cons, h.getLast?_eq]
  isChain := List.isChain_cons.2 ⟨by simpa [h.head?_eq] using hab, h.isChain⟩

/-- A path with a step behind. -/
theorem concat (h : IsPath step a b path) (hbc : step b c) : IsPath step a c (path ++ [c]) where
  head?_eq := by simp [List.head?_append, h.head?_eq]
  getLast?_eq := by simp
  isChain := List.isChain_append.2 ⟨h.isChain, .singleton c, by simpa [h.getLast?_eq] using hbc⟩

/-- A path begins with its first name. -/
theorem exists_eq_cons (h : IsPath step a b path) : ∃ rest, path = a :: rest := by
  cases path with
  | nil => exact absurd h.head?_eq (by simp)
  | cons first rest => exact ⟨rest, by rw [Option.some.inj h.head?_eq]⟩

/-- A path without its first step. -/
theorem tail (h : IsPath step a b (a :: c :: rest)) : IsPath step c b (c :: rest) where
  head?_eq := rfl
  getLast?_eq := by simpa [List.getLast?_cons_cons] using h.getLast?_eq
  isChain := (List.isChain_cons_cons.1 h.isChain).2

/-- A path out of some names has a step that leaves them, and what comes before it is a shorter
path. -/
theorem exists_step_out (h : IsPath step a b path) (ha : a ∈ seen) (hb : b ∉ seen) :
    ∃ u v front, u ∈ seen ∧ v ∉ seen ∧ step u v ∧ IsPath step a u front ∧
      front.length < path.length := by
  induction path generalizing a with
  | nil => exact absurd h.head?_eq (by simp)
  | cons first rest ih =>
    obtain rfl : first = a := Option.some.inj h.head?_eq
    cases rest with
    | nil =>
      obtain rfl : first = b := by simpa using h.getLast?_eq
      exact absurd ha hb
    | cons next rest =>
      have hstep := (List.isChain_cons_cons.1 h.isChain).1
      by_cases hnext : next ∈ seen
      · obtain ⟨u, v, front, hu, hv, huv, hfront, hlt⟩ := ih h.tail hnext
        exact ⟨u, v, first :: front, hu, hv, huv, hfront.cons hstep, Nat.succ_lt_succ hlt⟩
      · exact ⟨first, next, [first], ha, hnext, hstep, singleton step first, by simp⟩

/-- There is a path exactly where steps lead. -/
theorem exists_iff : (∃ path, IsPath step a b path) ↔ Relation.ReflTransGen step a b := by
  constructor
  · rintro ⟨path, h⟩
    obtain ⟨rest, rfl⟩ := h.exists_eq_cons
    refine List.relationReflTransGen_of_exists_isChain_cons rest h.isChain ?_
    exact Option.some.inj ((List.getLast?_eq_some_getLast _).symm.trans h.getLast?_eq)
  · intro h
    induction h with
    | refl => exact ⟨[a], singleton step a⟩
    | tail _ hstep ih =>
      obtain ⟨path, hpath⟩ := ih
      exact ⟨_, hpath.concat hstep⟩

end IsPath

namespace DependencyGraph

variable {g : DependencyGraph}

/-- A relation mentions another in the body of one of its rules. -/
def DependsOn (g : DependencyGraph) (a b : String) : Prop := ∃ e ∈ g.edges a, e.name = b

/-! ## The search -/

section Search

variable {start target name : String} {seen path : List String} {queue : List (List String)}

/-- What is found from a relation is what it depends on and was not seen. -/
theorem mem_unseen : name ∈ g.unseen seen start ↔ g.DependsOn start name ∧ name ∉ seen := by
  simp [unseen, DependsOn]

/-- A relation is found once. -/
theorem nodup_unseen : (g.unseen seen start).Nodup := by
  have hne : ∀ {a b : String}, compare a b = .lt → a ≠ b := by
    rintro a b hlt rfl
    simp at hlt
  exact List.Nodup.filter _ (pairwise_orderedSet.imp hne)

/-- What holds during a search for a target. The paths in the queue, which are written backwards,
are shortest paths from the start, in the order of their lengths, which differ by one at most. What
was seen stands at the end of one of them, or it is not the target and all that it depends on was
seen. -/
structure IsSearch (g : DependencyGraph) (start target : String) (seen : List String)
    (queue : List (List String)) : Prop where
  start_mem : start ∈ seen
  isPath : ∀ p ∈ queue, IsPath g.DependsOn start (p.headD "") p.reverse
  shortest : ∀ p ∈ queue, ∀ other, IsPath g.DependsOn start (p.headD "") other →
    p.length ≤ other.length
  ordered : queue.Pairwise fun p q => p.length ≤ q.length
  narrow : ∀ p ∈ queue, ∀ q ∈ queue, q.length ≤ p.length + 1
  expanded : ∀ name ∈ seen, (∃ p ∈ queue, p.headD "" = name) ∨
    name ≠ target ∧ ∀ other, g.DependsOn name other → other ∈ seen

/-- A search starts with the path that goes nowhere. -/
theorem isSearch_start (g : DependencyGraph) (start target : String) :
    g.IsSearch start target [start] [[start]] where
  start_mem := List.mem_singleton_self start
  isPath p hp := by
    obtain rfl := List.mem_singleton.1 hp
    exact .singleton _ start
  shortest p hp other hother := by
    obtain rfl := List.mem_singleton.1 hp
    obtain ⟨rest, rfl⟩ := hother.exists_eq_cons
    simp
  ordered := List.pairwise_singleton _ _
  narrow p hp q hq := by
    rw [List.mem_singleton.1 hp, List.mem_singleton.1 hq]
    exact Nat.le_succ _
  expanded name hname :=
    .inl ⟨[start], List.mem_singleton_self _, (List.mem_singleton.1 hname).symm⟩

/-- The longer paths that a search goes on with are shortest paths: another path to what is found
has a step that leaves what was seen, and this step starts at the end of a path in the queue. -/
theorem IsSearch.length_lt_of_mem_unseen (h : g.IsSearch start target seen (path :: queue))
    (hname : name ∈ g.unseen seen (path.headD "")) {other : List String}
    (hother : IsPath g.DependsOn start name other) : path.length < other.length := by
  obtain ⟨u, v, front, hu, hv, huv, hfront, hlt⟩ :=
    hother.exists_step_out h.start_mem (mem_unseen.1 hname).2
  rcases h.expanded u hu with ⟨p, hp, rfl⟩ | ⟨-, hclosed⟩
  · have hshort : p.length ≤ front.length := h.shortest p hp front hfront
    have hfirst : path.length ≤ p.length := by
      rcases List.mem_cons.1 hp with rfl | hp
      · exact Nat.le_refl _
      · exact (List.pairwise_cons.1 h.ordered).1 p hp
    omega
  · exact absurd (hclosed v huv) hv

/-- A step of the search: the first path is taken from the queue, and longer ones to what is found
at its end go behind the others. -/
theorem IsSearch.step (h : g.IsSearch start target seen (path :: queue))
    (hne : path.headD "" ≠ target) :
    g.IsSearch start target (seen ++ g.unseen seen (path.headD ""))
      (queue ++ (g.unseen seen (path.headD "")).map (· :: path)) := by
  obtain ⟨hfirst, hrest⟩ := List.pairwise_cons.1 h.ordered
  have hwide : ∀ p ∈ queue, p.length ≤ path.length + 1 := fun p hp =>
    h.narrow path List.mem_cons_self p (List.mem_cons_of_mem _ hp)
  constructor
  case start_mem => exact List.mem_append_left _ h.start_mem
  case isPath =>
    refine List.forall_mem_append.2 ⟨fun p hp => h.isPath p (List.mem_cons_of_mem _ hp), ?_⟩
    refine List.forall_mem_map.2 fun name hname => ?_
    rw [List.reverse_cons]
    exact (h.isPath path List.mem_cons_self).concat (mem_unseen.1 hname).1
  case shortest =>
    refine List.forall_mem_append.2 ⟨fun p hp => h.shortest p (List.mem_cons_of_mem _ hp), ?_⟩
    exact List.forall_mem_map.2 fun name hname other hother =>
      h.length_lt_of_mem_unseen hname hother
  case ordered =>
    refine List.pairwise_append.2 ⟨hrest, ?_, fun p hp => ?_⟩
    · exact List.pairwise_map.2 (List.pairwise_of_forall fun _ _ => Nat.le_refl _)
    · exact List.forall_mem_map.2 fun name _ => hwide p hp
  case narrow =>
    have hbounds : ∀ p ∈ queue ++ (g.unseen seen (path.headD "")).map (· :: path),
        path.length ≤ p.length ∧ p.length ≤ path.length + 1 := by
      refine List.forall_mem_append.2 ⟨fun p hp => ⟨hfirst p hp, hwide p hp⟩, ?_⟩
      exact List.forall_mem_map.2 fun name _ => ⟨Nat.le_succ _, Nat.le_refl _⟩
    intro p hp q hq
    exact (hbounds q hq).2.trans (Nat.succ_le_succ (hbounds p hp).1)
  case expanded =>
    refine List.forall_mem_append.2 ⟨fun name hname => ?_, fun name hname => ?_⟩
    · rcases h.expanded name hname with ⟨p, hp, hend⟩ | ⟨htarget, hclosed⟩
      · rcases List.mem_cons.1 hp with rfl | hp
        · refine .inr ⟨hend ▸ hne, fun other hother => ?_⟩
          by_cases hseen : other ∈ seen
          · exact List.mem_append_left _ hseen
          · exact List.mem_append_right _ (mem_unseen.2 ⟨hend ▸ hother, hseen⟩)
        · exact .inl ⟨p, List.mem_append_left _ hp, hend⟩
      · exact .inr ⟨htarget, fun other hother => List.mem_append_left _ (hclosed other hother)⟩
    · exact .inl ⟨name :: path, List.mem_append_right _ (List.mem_map_of_mem hname), rfl⟩

/-- When the queue is empty, there is no path to the target. -/
theorem IsSearch.not_isPath (h : g.IsSearch start target seen []) :
    ¬ IsPath g.DependsOn start target path := by
  have hclosed : ∀ name ∈ seen, name ≠ target ∧ ∀ other, g.DependsOn name other → other ∈ seen :=
    fun name hname => (h.expanded name hname).resolve_left (by simp)
  intro hpath
  have htarget : target ∉ seen := fun hmem => (hclosed target hmem).1 rfl
  obtain ⟨u, v, -, hu, hv, huv, -⟩ := hpath.exists_step_out h.start_mem htarget
  exact hv ((hclosed u hu).2 v huv)

/-- What a search finds is a shortest path from the start to the target. -/
theorem IsSearch.of_search {n : Nat} (h : g.IsSearch start target seen queue)
    (hsearch : g.search target n seen queue = some path) :
    IsPath g.DependsOn start target path ∧ ∀ other, IsPath g.DependsOn start target other →
      path.length ≤ other.length := by
  induction n generalizing seen queue with
  | zero => simp [search] at hsearch
  | succ n ih =>
    cases queue with
    | nil => simp [search] at hsearch
    | cons first rest =>
      simp only [search] at hsearch
      split at hsearch
      · next heq =>
        obtain rfl := Option.some.inj hsearch
        have hpath := h.isPath first List.mem_cons_self
        have hshort := h.shortest first List.mem_cons_self
        rw [heq] at hpath hshort
        exact ⟨hpath, by rwa [List.length_reverse]⟩
      · next hne => exact ih (h.step hne) hsearch

/-- The relations of a graph that a search has not seen. -/
def missing (g : DependencyGraph) (seen : List String) : Finset String :=
  g.predicates.toFinset \ seen.toFinset

/-- What is found is missing no longer. -/
theorem card_missing_append (hg : ∀ a b, g.DependsOn a b → b ∈ g.predicates)
    (seen : List String) (name : String) :
    (g.missing (seen ++ g.unseen seen name)).card + (g.unseen seen name).length =
      (g.missing seen).card := by
  have hfound : (g.unseen seen name).toFinset ⊆ g.missing seen := by
    intro other hother
    obtain ⟨hdepends, hseen⟩ := mem_unseen.1 (List.mem_toFinset.1 hother)
    simp [missing, hg name other hdepends, hseen]
  have hrest : g.missing (seen ++ g.unseen seen name) =
      g.missing seen \ (g.unseen seen name).toFinset := by
    rw [missing, missing, List.toFinset_append, sdiff_sdiff_left, Finset.sup_eq_union]
  rw [hrest, ← List.toFinset_card_of_nodup nodup_unseen]
  exact Finset.card_sdiff_add_card_eq_card hfound

/-- A search that can take as many paths from the queue as there are in it and relations are missing
finds nothing only if there is no path to the target. -/
theorem IsSearch.not_isPath_of_search (hg : ∀ a b, g.DependsOn a b → b ∈ g.predicates) {n : Nat}
    (h : g.IsSearch start target seen queue) (hn : queue.length + (g.missing seen).card ≤ n)
    (hsearch : g.search target n seen queue = none) : ¬ IsPath g.DependsOn start target path := by
  induction n generalizing seen queue with
  | zero =>
    obtain rfl : queue = [] := List.length_eq_zero_iff.1 (by omega)
    exact h.not_isPath
  | succ n ih =>
    cases queue with
    | nil => exact h.not_isPath
    | cons first rest =>
      simp only [search] at hsearch
      split at hsearch
      · exact absurd hsearch (by simp)
      · next hne =>
        refine ih (h.step hne) ?_ hsearch
        have hcard := card_missing_append hg seen (first.headD "")
        rw [List.length_cons] at hn
        rw [List.length_append, List.length_map]
        omega

/-- The path that is found is a shortest one. -/
theorem path?_eq_some (h : g.path? start target = some path) :
    IsPath g.DependsOn start target path ∧ ∀ other, IsPath g.DependsOn start target other →
      path.length ≤ other.length :=
  (isSearch_start g start target).of_search h

/-- No path is found only if there is none. -/
theorem path?_eq_none_iff (hg : ∀ a b, g.DependsOn a b → b ∈ g.predicates) :
    g.path? start target = none ↔ ∀ path, ¬ IsPath g.DependsOn start target path := by
  constructor
  · intro h path
    refine (isSearch_start g start target).not_isPath_of_search hg ?_ h
    have hcard : (g.missing [start]).card ≤ g.predicates.length :=
      (Finset.card_le_card Finset.sdiff_subset).trans (List.toFinset_card_le _)
    rw [List.length_singleton]
    omega
  · intro h
    rw [Option.eq_none_iff_forall_ne_some]
    exact fun path hpath => h path (path?_eq_some hpath).1

end Search

/-! ## Paths by parents -/

/-- Follows pointers from a name back to one that has none; the number bounds the names on the
way. -/
def traceBack? (parents : List (String × String)) : Nat → String → Option (List String)
  | 0, _ => none
  | n + 1, name =>
    match parents.lookup name with
    | some parent => (traceBack? parents n parent).map (name :: ·)
    | none => some [name]

/-- The search for `target` with a queue of relations. Each relation that is found points to the one
from which it was, its parent, and the path is traced back along the parents when the target is
taken from the queue. -/
def searchByParents (g : DependencyGraph) (target : String) :
    Nat → List String → List (String × String) → List String → Option (List String)
  | 0, _, _, _ => none
  | _, _, _, [] => none
  | n + 1, seen, parents, current :: queue =>
    if current = target then (traceBack? parents (parents.length + 1) current).map List.reverse
    else
      let found := g.unseen seen current
      searchByParents g target n (seen ++ found) (parents ++ found.map fun name => (name, current))
        (queue ++ found)

/-- A path along dependencies that is put together from parents, both ends included. -/
def pathByParents? (g : DependencyGraph) (start target : String) : Option (List String) :=
  g.searchByParents target (g.predicates.length + 1) [start] [] [start]

section Parents

variable {parents more : List (String × String)} {seen path : List String}
  {queue : List (List String)} {start target name : String} {n m : Nat}

/-- A way back that ends within some steps ends within more. -/
theorem traceBack?_of_le (h : traceBack? parents n name = some path) (hle : n ≤ m) :
    traceBack? parents m name = some path := by
  induction n generalizing m name path with
  | zero => simp [traceBack?] at h
  | succ n ih =>
    obtain ⟨m, rfl⟩ := Nat.exists_eq_add_of_le' (Nat.le_trans (Nat.le_add_left 1 n) hle)
    simp only [traceBack?] at h ⊢
    split at h
    · obtain ⟨rest, hrest, rfl⟩ := Option.map_eq_some_iff.1 h
      rw [ih hrest (Nat.le_of_succ_le_succ hle), Option.map_some]
    · exact h

/-- Further parents, of names that are not on it, leave a way back as it is. -/
theorem traceBack?_append (h : traceBack? parents n name = some path)
    (hmore : ∀ other ∈ path, more.lookup other = none) :
    traceBack? (parents ++ more) n name = some path := by
  induction n generalizing name path with
  | zero => simp [traceBack?] at h
  | succ n ih =>
    simp only [traceBack?, List.lookup_append] at h ⊢
    cases hparent : parents.lookup name with
    | some parent =>
      simp only [hparent] at h
      obtain ⟨rest, hrest, rfl⟩ := Option.map_eq_some_iff.1 h
      simp [ih hrest fun other hother => hmore other (List.mem_cons_of_mem _ hother)]
    | none =>
      simp only [hparent, Option.some.injEq] at h
      subst h
      simp [hmore name (List.mem_singleton_self name)]

/-- What a queue of relations knows about a path: the parents lead back along it, and all names on
it were seen. -/
structure IsTraced (parents : List (String × String)) (seen path : List String) : Prop where
  mem_seen : ∀ name ∈ path, name ∈ seen
  length_le : path.length ≤ parents.length + 1
  traceBack?_eq : traceBack? parents path.length (path.headD "") = some path

/-- Names with one parent have it. -/
theorem lookup_map_parent (names : List String) (parent name : String) :
    (names.map fun other => (other, parent)).lookup name =
      if name ∈ names then some parent else none := by
  induction names with
  | nil => rfl
  | cons first rest ih =>
    rw [List.map_cons, lookup_cons_eq_ite, ih]
    by_cases hname : name = first <;> simp [hname]

/-- A path stays traced when relations are found that were not seen. -/
theorem IsTraced.append (h : IsTraced parents seen path) {found : List String}
    (hfound : ∀ other ∈ found, other ∉ seen) (parent : String) :
    IsTraced (parents ++ found.map fun other => (other, parent)) (seen ++ found) path where
  mem_seen other hother := List.mem_append_left _ (h.mem_seen other hother)
  length_le := by
    have hle := h.length_le
    rw [List.length_append]
    omega
  traceBack?_eq := by
    refine traceBack?_append h.traceBack?_eq fun other hother => ?_
    rw [lookup_map_parent, if_neg fun hmem => hfound other hmem (h.mem_seen other hother)]

/-- A path to a relation that is found at the end of a traced path is traced. -/
theorem IsTraced.cons (h : IsTraced parents seen path) {found : List String}
    (hfound : ∀ other ∈ found, other ∉ seen) (hparents : ∀ e ∈ parents, e.1 ∈ seen)
    (hname : name ∈ found) :
    IsTraced (parents ++ found.map fun other => (other, path.headD "")) (seen ++ found)
      (name :: path) where
  mem_seen := List.forall_mem_cons.2
    ⟨List.mem_append_right _ hname, (h.append hfound (path.headD "")).mem_seen⟩
  length_le := by
    have hle := h.length_le
    have hpos := List.length_pos_of_mem hname
    rw [List.length_append, List.length_map, List.length_cons]
    omega
  traceBack?_eq := by
    have hnone : parents.lookup name = none := by
      rw [List.lookup_eq_none_iff]
      intro e he
      rw [bne_iff_ne]
      rintro rfl
      exact hfound _ hname (hparents e he)
    have hrest := (h.append hfound (path.headD "")).traceBack?_eq
    rw [List.length_cons, List.headD_cons, traceBack?, List.lookup_append, hnone, Option.none_or,
      lookup_map_parent, if_pos hname]
    dsimp only
    rw [hrest, Option.map_some]

/-- Searching with parents finds what searching with paths finds. -/
theorem search_eq_searchByParents (g : DependencyGraph) (target : String)
    (hparents : ∀ e ∈ parents, e.1 ∈ seen) (hqueue : ∀ p ∈ queue, IsTraced parents seen p) :
    g.search target n seen queue =
      g.searchByParents target n seen parents (queue.map (·.headD "")) := by
  induction n generalizing seen parents queue with
  | zero => rfl
  | succ n ih =>
    cases queue with
    | nil => rfl
    | cons path rest =>
      obtain ⟨hpath, hrest⟩ := List.forall_mem_cons.1 hqueue
      rw [search, List.map_cons, searchByParents]
      dsimp only
      split
      · rw [traceBack?_of_le hpath.traceBack?_eq hpath.length_le, Option.map_some]
      · have hfound : ∀ other ∈ g.unseen seen (path.headD ""), other ∉ seen := fun other hother =>
          (mem_unseen.1 hother).2
        have hheads : ((g.unseen seen (path.headD "")).map (· :: path)).map (·.headD "") =
            g.unseen seen (path.headD "") := by
          rw [List.map_map]
          exact List.map_id _
        rw [ih (List.forall_mem_append.2 ⟨?_, ?_⟩) (List.forall_mem_append.2 ⟨?_, ?_⟩),
          List.map_append, hheads]
        · exact fun e he => List.mem_append_left _ (hparents e he)
        · exact List.forall_mem_map.2 fun other hother => List.mem_append_right _ hother
        · exact fun p hp => (hrest p hp).append hfound _
        · exact List.forall_mem_map.2 fun other hother => hpath.cons hfound hparents hother

/-- The path that is put together from parents is the one that the search finds. -/
theorem pathByParents?_eq (g : DependencyGraph) (start target : String) :
    g.pathByParents? start target = g.path? start target := by
  have hstart : IsTraced [] [start] [start] := ⟨by simp, Nat.le_refl _, rfl⟩
  exact (search_eq_searchByParents g target (by simp)
    (List.forall_mem_singleton.2 hstart)).symm

end Parents

end DependencyGraph

end Factbase
